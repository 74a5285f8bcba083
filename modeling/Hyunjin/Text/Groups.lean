import Hyunjin.Text.Base64

/-!
# Groups of three bytes

`groups` is the encoding of a byte string, on lists: four characters for every three bytes, and a
padded group for one or two bytes that are left. The encoder writes the groups of its input, and the
decoder reads them back, as long as what is written can be counted in an `int`.
-/

namespace Hyunjin

open Memory

/-! ## What is written -/

/-- The buffer has `n` bytes and begins with `xs`, of which the last `k` are not counted yet. -/
structure Outbuf.Wrote (o : Outbuf) (n k : ℕ) (xs : List U8) : Prop where
  length : o.outbuf.length = n
  outlen : o.outlen + k = xs.length
  holds : Memory.Holds o.outbuf xs

section Wrote

variable {o : Outbuf} {n k : ℕ} {xs : List U8}

theorem Outbuf.wrote_start (outbuf : List U8) :
    (⟨outbuf, 0⟩ : Outbuf).Wrote outbuf.length 0 [] := ⟨rfl, rfl, holds_nil _⟩

theorem Outbuf.Wrote.put (h : o.Wrote n k xs) (hroom : xs.length < n) (b : U8) :
    ∃ o', o.put k b = some o' ∧ o'.Wrote n (k + 1) (xs ++ [b]) := by
  obtain ⟨m, hstore, hlen, hholds⟩ := h.holds.store (hroom.trans_eq h.length.symm) b
  refine ⟨{ o with outbuf := m }, ?_, hlen.trans h.length, ?_, hholds⟩
  · rw [Outbuf.put, h.outlen, hstore, Option.map_some]
  · rw [List.length_append, List.length_singleton, ← h.outlen]
    rfl

theorem Outbuf.Wrote.advance (h : o.Wrote n k xs) (hint : xs.length < 2 ^ 31) :
    ∃ o', o.advance k = some o' ∧ o'.Wrote n 0 xs := by
  refine ⟨{ o with outlen := o.outlen + k }, ?_, h.length, h.outlen, h.holds⟩
  rw [Outbuf.advance, if_pos (h.outlen.trans_lt hint)]

theorem Outbuf.Wrote.advance_none (h : o.Wrote n k xs) (hint : 2 ^ 31 ≤ xs.length) :
    o.advance k = none := by
  rw [Outbuf.advance, if_neg (not_lt.mpr (hint.trans_eq h.outlen.symm))]

theorem Outbuf.Wrote.push (h : o.Wrote n 0 xs) (hroom : xs.length < n)
    (hint : xs.length + 1 < 2 ^ 31) (b : U8) :
    ∃ o', o.push b = some o' ∧ o'.Wrote n 0 (xs ++ [b]) := by
  obtain ⟨o₁, hput, h₁⟩ := h.put hroom b
  obtain ⟨o₂, hadvance, h₂⟩ := h₁.advance (by rwa [List.length_append, List.length_singleton])
  exact ⟨o₂, by rw [Outbuf.push, hput, Option.bind_some, hadvance], h₂⟩

theorem Outbuf.Wrote.finish (h : o.Wrote n 0 xs) (errors : Bool) :
    ∃ m : List U8, o.finish errors = some (if errors then -1 else (xs.length : ℤ), m)
      ∧ m.length = n ∧ m.take xs.length = xs := by
  have houtlen : o.outlen = xs.length := h.outlen
  rw [Outbuf.finish, h.length]
  simp only [houtlen]
  by_cases hroom : xs.length < n
  · obtain ⟨o', hput, h'⟩ := h.put hroom 0#8
    have hholds : Memory.Holds o'.outbuf xs := (List.prefix_append xs _).trans h'.holds
    have hcount : o'.outlen = xs.length := by
      have := h'.outlen
      rw [List.length_append, List.length_singleton] at this
      omega
    refine ⟨o'.outbuf, ?_, h'.length, hholds.take_eq⟩
    rw [if_pos hroom, hput]
    simp only [Option.bind_eq_bind, Option.bind_some, hcount]
  · refine ⟨o.outbuf, ?_, h.length, h.holds.take_eq⟩
    rw [if_neg hroom]
    simp only [Option.bind_eq_bind, Option.bind_some, houtlen]

end Wrote

/-! ## Characters -/

/-- The character for six bits. -/
def sym (v : ℕ) : U8 := base64table.getD v 0#8

theorem decoderAt_sym : ∀ v < 64, sym v ≠ PAD ∧ decoderAt (sym v).toInt = some (v + 1) := by
  decide +kernel

theorem b64Enc_eq_sym (ch : U32) : b64Enc ch = sym (ch.toNat % 64) := by
  rw [b64Enc, sym]
  congr 1
  rw [BitVec.toNat_and, BitVec.toNat_setWidth, BitVec.toNat_ofNat,
    show 63 % 2 ^ 8 = 2 ^ 6 - 1 from rfl, Nat.and_two_pow_sub_one_eq_mod]
  omega

/-- Six bits of one byte, whose sign does not matter. -/
theorem promote_bits : ∀ c : U8,
    ((promote c).sshiftRight 2).toNat % 64 = c.toNat / 4
      ∧ promote c <<< 4 &&& 0o60#32 = BitVec.ofNat 32 (16 * (c.toNat % 4))
      ∧ (promote c).sshiftRight 4 &&& 0o17#32 = BitVec.ofNat 32 (c.toNat / 16)
      ∧ promote c <<< 2 &&& 0o74#32 = BitVec.ofNat 32 (4 * (c.toNat % 16))
      ∧ (promote c).sshiftRight 6 &&& 0o3#32 = BitVec.ofNat 32 (c.toNat / 64)
      ∧ (promote c &&& 0o77#32).toNat = c.toNat % 64 := by
  decide +kernel

theorem or_bits_four : ∀ x < 4, ∀ y < 16,
    (BitVec.ofNat 32 (16 * x) ||| BitVec.ofNat 32 y).toNat % 64 = 16 * x + y := by decide +kernel

theorem or_bits_two : ∀ x < 16, ∀ y < 4,
    (BitVec.ofNat 32 (4 * x) ||| BitVec.ofNat 32 y).toNat % 64 = 4 * x + y := by decide +kernel

theorem encChars_eq (c₀ c₁ c₂ : U8) :
    encChars c₀ c₁ c₂ = (sym (c₀.toNat / 4), sym (16 * (c₀.toNat % 4) + c₁.toNat / 16),
      sym (4 * (c₁.toNat % 16) + c₂.toNat / 64), sym (c₂.toNat % 64)) := by
  obtain ⟨h2, h4, -⟩ := promote_bits c₀
  obtain ⟨-, -, h4', h2', -⟩ := promote_bits c₁
  obtain ⟨-, -, -, -, h6, h0⟩ := promote_bits c₂
  have hc₁ := c₁.isLt; have hc₂ := c₂.isLt
  simp only [encChars, b64Enc_eq_sym, h2, h4, h4', h2', h6, h0, Nat.mod_mod,
    or_bits_four _ (Nat.mod_lt _ four_pos) (c₁.toNat / 16) (by omega),
    or_bits_two _ (Nat.mod_lt c₁.toNat (by norm_num : 0 < 16)) (c₂.toNat / 64) (by omega)]

/-! ## Encoding -/

/-- The characters that stand for a byte string. -/
def groups : List U8 → List U8
  | a :: b :: c :: rest =>
    [sym (a.toNat / 4), sym (16 * (a.toNat % 4) + b.toNat / 16),
      sym (4 * (b.toNat % 16) + c.toNat / 64), sym (c.toNat % 64)] ++ groups rest
  | [a, b] =>
    [sym (a.toNat / 4), sym (16 * (a.toNat % 4) + b.toNat / 16), sym (4 * (b.toNat % 16)), PAD]
  | [a] => [sym (a.toNat / 4), sym (16 * (a.toNat % 4)), PAD, PAD]
  | [] => []

theorem length_groups (l : List U8) : (groups l).length = 4 * ((l.length + 2) / 3) := by
  induction l using groups.induct with
  | case1 a b c rest ih =>
    rw [groups, List.length_append, ih]
    simp only [List.length_cons, List.length_nil]
    omega
  | case2 a b => simp [groups]
  | case3 a => simp [groups]
  | case4 => simp [groups]

variable {o : Outbuf} {n : ℕ} {xs : List U8}

/-- Four characters at once: they are counted together, if the count stays an `int`. -/
theorem Outbuf.Wrote.four (h : o.Wrote n 0 xs) (hroom : xs.length + 4 ≤ n) (e₀ e₁ e₂ e₃ : U8) :
    ∃ o₁ o₂ o₃ o₄, o.put 0 e₀ = some o₁ ∧ o₁.put 1 e₁ = some o₂ ∧ o₂.put 2 e₂ = some o₃
      ∧ o₃.put 3 e₃ = some o₄ ∧ o₄.Wrote n 4 (xs ++ [e₀, e₁, e₂, e₃]) := by
  obtain ⟨o₁, hput₁, h₁⟩ := h.put (by omega) e₀
  obtain ⟨o₂, hput₂, h₂⟩ := h₁.put (by simp; omega) e₁
  obtain ⟨o₃, hput₃, h₃⟩ := h₂.put (by simp; omega) e₂
  obtain ⟨o₄, hput₄, h₄⟩ := h₃.put (by simp; omega) e₃
  refine ⟨o₁, o₂, o₃, o₄, hput₁, hput₂, hput₃, hput₄, ?_⟩
  simpa only [List.append_assoc, List.cons_append, List.nil_append] using h₄

/-- What a group comes to in the loop of the encoder, whatever follows it. -/
theorem Outbuf.Wrote.four_bind (h : o.Wrote n 0 xs) (hroom : xs.length + 4 ≤ n)
    (e₀ e₁ e₂ e₃ : U8) :
    ∃ o' : Option Outbuf,
      (∀ f : Outbuf → Option Outbuf, (do
        let o ← o.put 0 e₀
        let o ← o.put 1 e₁
        let o ← o.put 2 e₂
        let o ← o.put 3 e₃
        let o ← o.advance 4
        f o) = o'.bind f)
      ∧ (xs.length + 4 < 2 ^ 31 → ∃ o'', o' = some o'' ∧ o''.Wrote n 0 (xs ++ [e₀, e₁, e₂, e₃]))
      ∧ (2 ^ 31 ≤ xs.length + 4 → o' = none) := by
  obtain ⟨o₁, o₂, o₃, o₄, hput₁, hput₂, hput₃, hput₄, h₄⟩ := h.four hroom e₀ e₁ e₂ e₃
  have hlen : (xs ++ [e₀, e₁, e₂, e₃]).length = xs.length + 4 := List.length_append
  refine ⟨o₄.advance 4, fun f ↦ ?_, fun hint ↦ ?_, fun hint ↦ ?_⟩
  · simp only [Option.bind_eq_bind, hput₁, hput₂, hput₃, hput₄, Option.bind_some]
  · exact h₄.advance (hlen.trans_lt hint)
  · exact h₄.advance_none (hint.trans_eq hlen.symm)

/-- A padded group ends the loop. -/
theorem Outbuf.Wrote.four_last (h : o.Wrote n 0 xs) {e₀ e₁ e₂ e₃ : U8}
    (hroom : xs.length + [e₀, e₁, e₂, e₃].length ≤ n) :
    let loop := do
      let o ← o.put 0 e₀
      let o ← o.put 1 e₁
      let o ← o.put 2 e₂
      let o ← o.put 3 e₃
      let o ← o.advance 4
      some o
    (xs.length + [e₀, e₁, e₂, e₃].length < 2 ^ 31 →
        ∃ o', loop = some o' ∧ o'.Wrote n 0 (xs ++ [e₀, e₁, e₂, e₃]))
      ∧ (2 ^ 31 ≤ xs.length + [e₀, e₁, e₂, e₃].length → loop = none) := by
  obtain ⟨o', hloop, hok, hover⟩ := h.four_bind hroom e₀ e₁ e₂ e₃
  rw [hloop, Option.bind_fun_some]
  exact ⟨hok, hover⟩

theorem b64Enc_ofNat {v : ℕ} (hv : v < 64) : b64Enc (BitVec.ofNat 32 v) = sym v := by
  rw [b64Enc_eq_sym, BitVec.toNat_ofNat]
  congr 1
  omega

/-- **The encoder writes the groups** of its input. -/
theorem base64EncodeLoop_spec {l : List U8} (h : o.Wrote n 0 xs)
    (hroom : xs.length + (groups l).length ≤ n) (hxs : xs.length < 2 ^ 31) :
    (xs.length + (groups l).length < 2 ^ 31 →
        ∃ o', base64EncodeLoop l o = some o' ∧ o'.Wrote n 0 (xs ++ groups l))
      ∧ (2 ^ 31 ≤ xs.length + (groups l).length → base64EncodeLoop l o = none) := by
  induction l using groups.induct generalizing o xs with
  | case1 a b c rest ih =>
    have hlen : (groups (a :: b :: c :: rest)).length = 4 + (groups rest).length := by
      rw [length_groups, length_groups]
      simp only [List.length_cons]
      omega
    rw [hlen] at hroom ⊢
    obtain ⟨o', hloop, hok, hover⟩ := h.four_bind (by omega) (sym (a.toNat / 4))
      (sym (16 * (a.toNat % 4) + b.toNat / 16)) (sym (4 * (b.toNat % 16) + c.toNat / 64))
      (sym (c.toNat % 64))
    rw [base64EncodeLoop, encChars_eq]
    dsimp only
    rw [hloop]
    rcases Nat.lt_or_ge (xs.length + 4) (2 ^ 31) with hint | hint
    · obtain ⟨o'', rfl, h''⟩ := hok hint
      have hlen' : (xs ++ [sym (a.toNat / 4), sym (16 * (a.toNat % 4) + b.toNat / 16),
          sym (4 * (b.toNat % 16) + c.toNat / 64), sym (c.toNat % 64)]).length
            = xs.length + 4 := List.length_append
      have hrest := ih h'' (by omega) (by omega)
      rw [hlen', Nat.add_assoc] at hrest
      rwa [Option.bind_some, groups, ← List.append_assoc]
    · rw [hover hint]
      exact ⟨fun h ↦ absurd h (by omega), fun _ ↦ rfl⟩
  | case2 a b =>
    obtain ⟨h2, h4, -⟩ := promote_bits a
    obtain ⟨-, -, h4', h2', -⟩ := promote_bits b
    have hb := b.isLt
    rw [groups] at hroom ⊢
    rw [base64EncodeLoop, b64Enc_eq_sym, h2, b64Enc_eq_sym, h4, h4',
      or_bits_four _ (Nat.mod_lt _ four_pos) _ (by omega), h2', b64Enc_ofNat (by omega)]
    exact h.four_last hroom
  | case3 a =>
    obtain ⟨h2, h4, -⟩ := promote_bits a
    rw [groups] at hroom ⊢
    rw [base64EncodeLoop, b64Enc_eq_sym, h2, h4, b64Enc_ofNat (by omega)]
    exact h.four_last hroom
  | case4 =>
    rw [groups, List.append_nil, base64EncodeLoop]
    exact ⟨fun _ ↦ ⟨o, rfl, h⟩, fun hint ↦ absurd hint (not_le.mpr hxs)⟩

/-! ## Decoding -/

/-- Six more bits of a group that is not full. -/
theorem base64DecodeLoop_sym {v : ℕ} (hv : v < 64) {d : Decoding} (hcount : d.charCount + 1 < 4)
    (l : List U8) :
    base64DecodeLoop (sym v :: l) d = base64DecodeLoop l
      { d with bits := (d.bits + BitVec.ofNat 32 v) <<< 6, charCount := d.charCount + 1 } := by
  obtain ⟨hpad, hat⟩ := decoderAt_sym v hv
  rw [base64DecodeLoop, if_neg hpad, hat, Option.bind_eq_bind, Option.bind_some,
    if_neg v.succ_ne_zero, Nat.add_sub_cancel, if_pos hcount]

/-- The bits of a group whose first characters are these. -/
def bitsOf (vs : List ℕ) : U32 := vs.foldl (fun bits v ↦ (bits + BitVec.ofNat 32 v) <<< 6) 0#32

/-- The characters of a group that is not full. -/
theorem base64DecodeLoop_syms (vs : List ℕ) (hvs : ∀ v ∈ vs, v < 64) {d : Decoding}
    (hcount : d.charCount + vs.length < 4) (l : List U8) :
    base64DecodeLoop (vs.map sym ++ l) d = base64DecodeLoop l
      { d with
        bits := vs.foldl (fun bits v ↦ (bits + BitVec.ofNat 32 v) <<< 6) d.bits
        charCount := d.charCount + vs.length } := by
  induction vs generalizing d with
  | nil => rfl
  | cons v vs ih =>
    rw [List.length_cons] at hcount
    rw [List.map_cons, List.cons_append, base64DecodeLoop_sym (hvs v List.mem_cons_self) (by omega),
      ih (fun w hw ↦ hvs w (List.mem_cons_of_mem v hw)) (by dsimp only; omega)]
    simp only [List.foldl_cons, List.length_cons, Nat.add_comm vs.length, Nat.add_assoc]

/-- **Six bits after six bits** are the bytes that they were taken from. -/
theorem bits_group (a b c : U8) :
    let bits := bitsOf [a.toNat / 4, 16 * (a.toNat % 4) + b.toNat / 16,
      4 * (b.toNat % 16) + c.toNat / 64] + BitVec.ofNat 32 (c.toNat % 64)
    (bits >>> 16).setWidth 8 = a ∧ (bits >>> 8).setWidth 8 = b ∧ bits.setWidth 8 = c := by
  have ha := a.isLt; have hb := b.isLt; have hc := c.isLt
  have hbits : (bitsOf [a.toNat / 4, 16 * (a.toNat % 4) + b.toNat / 16,
      4 * (b.toNat % 16) + c.toNat / 64] + BitVec.ofNat 32 (c.toNat % 64)).toNat
        = 65536 * a.toNat + 256 * b.toNat + c.toNat := by
    simp only [bitsOf, List.foldl_cons, List.foldl_nil, BitVec.toNat_add, BitVec.toNat_shiftLeft,
      BitVec.toNat_ofNat, Nat.shiftLeft_eq]
    omega
  refine ⟨BitVec.eq_of_toNat_eq ?_, BitVec.eq_of_toNat_eq ?_, BitVec.eq_of_toNat_eq ?_⟩
  all_goals
    simp only [BitVec.toNat_setWidth, BitVec.toNat_ushiftRight, hbits, Nat.shiftRight_eq_div_pow]
    omega

theorem bits_pad_two (a : U8) :
    (bitsOf [a.toNat / 4, 16 * (a.toNat % 4)] >>> 10).setWidth 8 = a := by
  have ha := a.isLt
  apply BitVec.eq_of_toNat_eq
  simp only [bitsOf, List.foldl_cons, List.foldl_nil, BitVec.toNat_add, BitVec.toNat_shiftLeft,
    BitVec.toNat_ofNat, Nat.shiftLeft_eq, BitVec.toNat_setWidth, BitVec.toNat_ushiftRight,
    Nat.shiftRight_eq_div_pow]
  omega

theorem bits_pad_three (a b : U8) :
    let bits := bitsOf [a.toNat / 4, 16 * (a.toNat % 4) + b.toNat / 16, 4 * (b.toNat % 16)]
    (bits >>> 16).setWidth 8 = a ∧ (bits >>> 8).setWidth 8 = b := by
  have ha := a.isLt; have hb := b.isLt
  constructor
  all_goals
    apply BitVec.eq_of_toNat_eq
    simp only [bitsOf, List.foldl_cons, List.foldl_nil, BitVec.toNat_add, BitVec.toNat_shiftLeft,
      BitVec.toNat_ofNat, Nat.shiftLeft_eq, BitVec.toNat_setWidth, BitVec.toNat_ushiftRight,
      Nat.shiftRight_eq_div_pow]
    omega

/-- Two bytes one after another. -/
theorem Outbuf.Wrote.push_two (h : o.Wrote n 0 xs) (hroom : xs.length + 2 ≤ n)
    (hint : xs.length + 2 < 2 ^ 31) (b₀ b₁ : U8) :
    ∃ o₁ o₂, o.push b₀ = some o₁ ∧ o₁.push b₁ = some o₂ ∧ o₂.Wrote n 0 (xs ++ [b₀, b₁]) := by
  obtain ⟨o₁, hpush₁, h₁⟩ := h.push (by omega) (by omega) b₀
  obtain ⟨o₂, hpush₂, h₂⟩ := h₁.push (by simp; omega) (by simp; omega) b₁
  refine ⟨o₁, o₂, hpush₁, hpush₂, ?_⟩
  simpa only [List.append_assoc, List.cons_append, List.nil_append] using h₂

/-- The character that fills a group. -/
theorem base64DecodeLoop_full {v : ℕ} (hv : v < 64) {d : Decoding} (hcount : d.charCount = 3)
    (h : d.out.Wrote n 0 xs) (hroom : xs.length + 3 ≤ n) (hint : xs.length + 3 < 2 ^ 31)
    (l : List U8) :
    ∃ o', base64DecodeLoop (sym v :: l) d
        = base64DecodeLoop l { bits := 0#32, charCount := 0, out := o' }
      ∧ o'.Wrote n 0 (xs ++ [((d.bits + BitVec.ofNat 32 v) >>> 16).setWidth 8,
          ((d.bits + BitVec.ofNat 32 v) >>> 8).setWidth 8,
          (d.bits + BitVec.ofNat 32 v).setWidth 8]) := by
  obtain ⟨hpad, hat⟩ := decoderAt_sym v hv
  have houtlen : d.out.outlen = xs.length := h.outlen
  have hnot : ¬d.room < 3 := by
    rw [Decoding.room, h.length, houtlen]
    omega
  obtain ⟨o₁, o₂, hpush₁, hpush₂, h₂⟩ := h.push_two (by omega) (by omega)
    (((d.bits + BitVec.ofNat 32 v) >>> 16).setWidth 8)
    (((d.bits + BitVec.ofNat 32 v) >>> 8).setWidth 8)
  obtain ⟨o₃, hpush₃, h₃⟩ := h₂.push (by simp; omega) (by simp; omega)
    ((d.bits + BitVec.ofNat 32 v).setWidth 8)
  refine ⟨o₃, ?_, by simpa only [List.append_assoc, List.cons_append, List.nil_append] using h₃⟩
  rw [base64DecodeLoop, if_neg hpad, hat, Option.bind_eq_bind, Option.bind_some,
    if_neg v.succ_ne_zero, Nat.add_sub_cancel, if_neg (by omega), if_neg hnot]
  simp only [Option.bind_eq_bind, hpush₁, hpush₂, hpush₃, Option.bind_some]

theorem Decoding.pad_two {d : Decoding} (hcount : d.charCount = 2) (h : d.out.Wrote n 0 xs)
    (hroom : xs.length + 1 ≤ n) (hint : xs.length + 1 < 2 ^ 31) :
    ∃ o', d.pad = some (o', false) ∧ o'.Wrote n 0 (xs ++ [(d.bits >>> 10).setWidth 8]) := by
  have houtlen : d.out.outlen = xs.length := h.outlen
  have hnot : ¬d.room < 1 := by
    rw [Decoding.room, h.length, houtlen]
    omega
  obtain ⟨o', hpush, h'⟩ := h.push hroom hint ((d.bits >>> 10).setWidth 8)
  refine ⟨o', ?_, h'⟩
  rw [Decoding.pad, if_neg (by omega), if_pos hcount, if_neg hnot, hpush]
  rfl

theorem Decoding.pad_three {d : Decoding} (hcount : d.charCount = 3) (h : d.out.Wrote n 0 xs)
    (hroom : xs.length + 2 ≤ n) (hint : xs.length + 2 < 2 ^ 31) :
    ∃ o', d.pad = some (o', false)
      ∧ o'.Wrote n 0 (xs ++ [(d.bits >>> 16).setWidth 8, (d.bits >>> 8).setWidth 8]) := by
  have houtlen : d.out.outlen = xs.length := h.outlen
  have hnot : ¬d.room < 2 := by
    rw [Decoding.room, h.length, houtlen]
    omega
  obtain ⟨o₁, o₂, hpush₁, hpush₂, h'⟩ := h.push_two hroom hint ((d.bits >>> 16).setWidth 8)
    ((d.bits >>> 8).setWidth 8)
  refine ⟨o₂, ?_, h'⟩
  rw [Decoding.pad, if_neg (by omega), if_neg (by omega), if_pos hcount, if_neg hnot]
  simp only [Option.bind_eq_bind, hpush₁, hpush₂, Option.bind_some]

/-- **The decoder reads groups back.** -/
theorem base64DecodeLoop_groups {l : List U8} (h : o.Wrote n 0 xs)
    (hroom : xs.length + l.length ≤ n) (hint : xs.length + l.length < 2 ^ 31) :
    ∃ o', base64DecodeLoop (groups l) { bits := 0#32, charCount := 0, out := o } = some (o', false)
      ∧ o'.Wrote n 0 (xs ++ l) := by
  induction l using groups.induct generalizing o xs with
  | case1 a b c rest ih =>
    have ha := a.isLt; have hb := b.isLt; have hc := c.isLt
    simp only [List.length_cons] at hroom hint
    obtain ⟨h₀, h₁, h₂⟩ := bits_group a b c
    have hsyms := base64DecodeLoop_syms [a.toNat / 4, 16 * (a.toNat % 4) + b.toNat / 16,
      4 * (b.toNat % 16) + c.toNat / 64] (by simp; omega)
      (d := { bits := 0#32, charCount := 0, out := o }) (by simp)
      (sym (c.toNat % 64) :: groups rest)
    obtain ⟨o', hfull, h'⟩ := base64DecodeLoop_full (v := c.toNat % 64) (by omega)
      (d := ⟨bitsOf [a.toNat / 4, 16 * (a.toNat % 4) + b.toNat / 16,
        4 * (b.toNat % 16) + c.toNat / 64], 3, o⟩) rfl h (by omega) (by omega) (groups rest)
    dsimp only at h'
    rw [h₀, h₁, h₂] at h'
    have hlen : (xs ++ [a, b, c]).length = xs.length + 3 := List.length_append
    obtain ⟨o'', hrest, h''⟩ := ih h' (by omega) (by omega)
    refine ⟨o'', ?_, by simpa only [List.append_assoc, List.cons_append, List.nil_append] using h''⟩
    rw [← hrest, ← hfull, groups]
    exact hsyms
  | case2 a b =>
    have ha := a.isLt; have hb := b.isLt
    obtain ⟨h₀, h₁⟩ := bits_pad_three a b
    have hsyms := base64DecodeLoop_syms [a.toNat / 4, 16 * (a.toNat % 4) + b.toNat / 16,
      4 * (b.toNat % 16)] (by simp; omega)
      (d := { bits := 0#32, charCount := 0, out := o }) (by simp) [PAD]
    obtain ⟨o', hpad, h'⟩ := Decoding.pad_three
      (d := ⟨bitsOf [a.toNat / 4, 16 * (a.toNat % 4) + b.toNat / 16, 4 * (b.toNat % 16)], 3, o⟩)
      rfl h hroom hint
    dsimp only at h'
    rw [h₀, h₁] at h'
    refine ⟨o', ?_, h'⟩
    rw [groups, ← hpad]
    refine hsyms.trans ?_
    rw [base64DecodeLoop, if_pos rfl]
    rfl
  | case3 a =>
    have ha := a.isLt
    have hsyms := base64DecodeLoop_syms [a.toNat / 4, 16 * (a.toNat % 4)] (by simp; omega)
      (d := { bits := 0#32, charCount := 0, out := o }) (by simp) [PAD, PAD]
    obtain ⟨o', hpad, h'⟩ := Decoding.pad_two
      (d := ⟨bitsOf [a.toNat / 4, 16 * (a.toNat % 4)], 2, o⟩) rfl h hroom hint
    dsimp only at h'
    rw [bits_pad_two a] at h'
    refine ⟨o', ?_, h'⟩
    rw [groups, ← hpad]
    refine hsyms.trans ?_
    rw [base64DecodeLoop, if_pos rfl]
    rfl
  | case4 =>
    rw [groups, List.append_nil, base64DecodeLoop]
    exact ⟨o, rfl, h⟩

/-! ## The round trip -/

/-- The length of an encoding. -/
def encodedLength (x : List U8) : ℕ := 4 * ((x.length + 2) / 3)

/-- The buffer is large enough for the encoder's own test. -/
theorem not_lt_of_encodedLength_le {x outbuf : List U8} (hroom : encodedLength x ≤ outbuf.length)
    (hlen : outbuf.length < 2 ^ 32) :
    ¬BitVec.ofNat 32 outbuf.length
      < ((BitVec.ofNat 32 x.length + 2#32) / 3#32) * 4#32 := by
  rw [encodedLength] at hroom
  have hx : x.length + 2 < 2 ^ 32 := by omega
  have hsum : (BitVec.ofNat 32 x.length + 2#32).toNat = x.length + 2 := by
    rw [BitVec.toNat_add, BitVec.toNat_ofNat, BitVec.toNat_ofNat, ← Nat.add_mod,
      Nat.mod_eq_of_lt hx]
  have hneed : (((BitVec.ofNat 32 x.length + 2#32) / 3#32) * 4#32).toNat
      = (x.length + 2) / 3 * 4 := by
    rw [BitVec.toNat_mul, BitVec.toNat_udiv, hsum]
    exact Nat.mod_eq_of_lt (by change (x.length + 2) / 3 * 4 < _; omega)
  rw [BitVec.lt_def, hneed, BitVec.toNat_ofNat]
  omega

/-- Encoding gives as many characters as it should, and decoding them gives the bytes back. -/
def RoundTrips (x outbuf outbuf' : List U8) : Prop :=
  ∃ m m', base64Encode outbuf x = some ((encodedLength x : ℤ), m)
    ∧ base64Decode outbuf' (m.take (encodedLength x)) = some ((x.length : ℤ), m')
    ∧ m'.take x.length = x

/-- **Decoding undoes encoding**, as long as the characters can be counted in an `int`. -/
theorem roundTrips_iff {x outbuf outbuf' : List U8} (hroom : encodedLength x ≤ outbuf.length)
    (hlen : outbuf.length < 2 ^ 32) (hroom' : x.length ≤ outbuf'.length) :
    RoundTrips x outbuf outbuf' ↔ encodedLength x < 2 ^ 31 := by
  have hgroups : (groups x).length = encodedLength x := length_groups x
  obtain ⟨hok, hover⟩ := base64EncodeLoop_spec (l := x) (Outbuf.wrote_start outbuf)
    (by rwa [List.length_nil, Nat.zero_add, hgroups]) (by norm_num)
  rw [List.length_nil, Nat.zero_add, hgroups] at hok hover
  constructor
  · rintro ⟨m, m', henc, -⟩
    by_contra hint
    rw [base64Encode] at henc
    rw [if_neg (not_lt_of_encodedLength_le hroom hlen), hover (not_lt.mp hint)] at henc
    exact nomatch henc
  · intro hint
    obtain ⟨o, hloop, ho⟩ := hok hint
    obtain ⟨m, hfinish, -, htake⟩ := ho.finish false
    rw [List.nil_append] at hfinish htake
    obtain ⟨o', hloop', ho'⟩ := base64DecodeLoop_groups (l := x) (Outbuf.wrote_start outbuf')
      (by rwa [List.length_nil, Nat.zero_add])
      (by rw [List.length_nil, Nat.zero_add]; rw [encodedLength] at hint; omega)
    obtain ⟨m', hfinish', -, htake'⟩ := ho'.finish false
    rw [List.nil_append] at hfinish' htake'
    refine ⟨m, m', ?_, ?_, htake'⟩
    · rw [base64Encode, if_neg (not_lt_of_encodedLength_le hroom hlen), hloop, Option.bind_some,
        hfinish, hgroups]
      rfl
    · rw [base64Decode, ← hgroups, htake, hloop', Option.bind_eq_bind, Option.bind_some]
      exact hfinish'

end Hyunjin

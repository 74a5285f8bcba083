import Hyunjin.Net.Netconn

/-!
# Reads that return

A round of the loop that decodes consumes what has come, or ends the loop, or reads more, but for
one case: a header or UUE that has come up to the middle of a line, while at least as many
characters are in the buffer as the header has announced for the body. Then nothing is consumed, as
the line has no end, and nothing is read, as all has come; the next round finds the same, for ever.
-/

namespace Hyunjin.Net

namespace Decode

variable {host : NetHost} {d d' : Decode} {peer peer' : List Chunk}

/-! ## Lines -/

/-- What a look at a line comes to: another one is looked at, or the loop is done, or something has
been consumed, or there is no line. -/
structure Looked (d d' : Decode) (more : Bool) : Prop where
  go : more = true → d'.decodebuffer.length < d.decodebuffer.length
  stop : more = false → d'.done = true ∨ d'.decodebuffer.length < d.decodebuffer.length
    ∨ (d' = d ∧ peekNetline d.decodebuffer = .unended)

theorem length_pophead {linelen skip : ℕ} (h : peekNetline d.decodebuffer = .line linelen skip) :
    (d.pophead skip).decodebuffer.length < d.decodebuffer.length := by
  have hspec := peekNetline_spec h
  rw [pophead, List.length_drop]
  omega

theorem done_fail (d : Decode) : d.fail.done = true := rfl

/-- Something has been consumed. -/
theorem Looked.of_lt (h : d'.decodebuffer.length < d.decodebuffer.length) (more : Bool) :
    Looked d d' more :=
  ⟨fun _ ↦ h, fun _ ↦ .inr (.inl h)⟩

theorem Looked.of_done (h : d'.done = true) : Looked d d' false :=
  ⟨fun hmore ↦ absurd hmore Bool.false_ne_true, fun _ ↦ .inl h⟩

theorem httpLine_looked (host : NetHost) (d : Decode) :
    Looked d (httpLine host d).1 (httpLine host d).2 := by
  rw [httpLine]
  cases hpeek : peekNetline d.decodebuffer with
  | unended => exact ⟨fun h ↦ absurd h Bool.false_ne_true, fun _ ↦ .inr (.inr ⟨rfl, hpeek⟩)⟩
  | binary => exact .of_done (done_fail d)
  | line linelen skip =>
    have hpop := length_pophead hpeek
    dsimp only
    split_ifs
    · refine .of_lt ?_ _
      exact hpop
    · exact .of_done rfl
    all_goals
      refine .of_lt ?_ _
      exact hpop

theorem uueLine_looked (host : NetHost) (d : Decode) :
    ∃ d' more, uueLine host d = some (d', more) ∧ Looked d d' more := by
  rw [uueLine]
  cases hpeek : peekNetline d.decodebuffer with
  | unended =>
    exact ⟨_, _, rfl, fun h ↦ absurd h Bool.false_ne_true, fun _ ↦ .inr (.inr ⟨rfl, hpeek⟩)⟩
  | binary => exact ⟨_, _, rfl, .of_done (done_fail d)⟩
  | line linelen skip =>
    have hpop := length_pophead hpeek
    dsimp only
    by_cases hend : END <+: lineBuffer d.decodebuffer linelen UUE_LCBUF
    · rw [if_pos hend]
      exact ⟨_, _, rfl, .of_done (Bool.or_true _)⟩
    rw [if_neg hend]
    by_cases hdata : 1 < linelen ∧ ¬BEGIN <+: lineBuffer d.decodebuffer linelen UUE_LCBUF
    swap
    · rw [if_neg hdata]
      exact ⟨_, _, rfl, .of_lt hpop _⟩
    rw [if_pos hdata]
    by_cases hshort : linelen < uuLen (uuDec (d.decodebuffer.headD 0#8)).toNat
    · rw [if_pos hshort]
      exact ⟨_, _, rfl, .of_done (done_fail d)⟩
    -- the line is decoded
    have hspec := peekNetline_spec hpeek
    have hneed := uuNeed_le (uuDec (d.decodebuffer.headD 0#8)).toNat
    obtain ⟨mem, hmem, hlen, -⟩ := uuDecodeLine_spec (uuDec (d.decodebuffer.headD 0#8)).toNat
      d.decodebuffer (by omega) le_rfl
    rw [if_neg hshort, hmem, Option.map_some]
    split_ifs
    · refine ⟨_, _, rfl, .of_lt ?_ _⟩
      rw [pophead, List.length_drop] at hpop ⊢
      rwa [hlen]
    · exact ⟨_, _, rfl, .of_done rfl⟩

/-- **All lines that have come** are looked at. -/
theorem linesLoop_looked {line : Decode → Option (Decode × Bool)}
    (hline : ∀ d, ∃ d' more, line d = some (d', more) ∧ Looked d d' more) (fuel : ℕ)
    (hfuel : d.decodebuffer.length < fuel) :
    ∃ d', linesLoop line fuel d = some d' ∧ Looked d d' false := by
  induction fuel generalizing d with
  | zero => exact absurd hfuel (Nat.not_lt_zero _)
  | succ fuel ih =>
    obtain ⟨d₁, more, hd₁, hlooked⟩ := hline d
    rw [linesLoop, hd₁, Option.bind_some]
    cases more with
    | false => exact ⟨d₁, rfl, hlooked⟩
    | true =>
      have hlt := hlooked.go rfl
      obtain ⟨d', hd', hrest⟩ := ih (d := d₁) (by omega)
      refine ⟨d', hd', fun h ↦ absurd h Bool.false_ne_true, fun _ ↦ ?_⟩
      rcases hrest.stop rfl with hdone | hless | ⟨rfl, -⟩
      · exact .inl hdone
      · exact .inr (.inl (hless.trans hlt))
      · exact .inr (.inl hlt)

/-! ## Reads -/

/-- What the peer still has to send. -/
def peerSize (peer : List Chunk) : ℕ :=
  (peer.map fun c ↦ match c with
    | .bytes data => data.length + 1
    | .error => 1).sum

theorem peerSize_netRead {n : ℕ} {c : U8} {data : List U8}
    (h : netRead n peer = (some (c :: data), peer')) : peerSize peer' < peerSize peer := by
  cases peer with
  | nil => exact nomatch congrArg Prod.fst h
  | cons chunk peer =>
    cases chunk with
    | error => exact nomatch congrArg Prod.fst h
    | bytes sent =>
      rw [netRead] at h
      rw [peerSize, peerSize, List.map_cons, List.sum_cons]
      split_ifs at h with hall
      · obtain ⟨-, rfl⟩ := Prod.mk.inj h
        dsimp only
        omega
      · obtain ⟨htake, rfl⟩ := Prod.mk.inj h
        have hlen := congrArg List.length (Option.some.inj htake)
        rw [List.length_take, List.length_cons] at hlen
        rw [List.map_cons, List.sum_cons]
        dsimp only
        rw [List.length_drop]
        omega

/-- More is read, or the loop is done, unless there is nothing to be read. -/
theorem readMore_spec (host : NetHost) (peer : List Chunk) (hrequest : d.request ≠ 0)
    (h : readMore host d peer = (d', peer')) :
    d'.done = true ∨ peerSize peer' < peerSize peer := by
  rw [readMore, if_neg hrequest] at h
  split_ifs at h
  · cases hread : netRead d.request peer with
    | mk data rest =>
      rw [hread] at h
      cases data with
      | none =>
        obtain ⟨rfl, -⟩ := Prod.mk.inj h
        exact .inl (done_fail d)
      | some data =>
        cases data with
        | nil =>
          obtain ⟨rfl, -⟩ := Prod.mk.inj h
          exact .inl (done_fail d)
        | cons c data =>
          obtain ⟨-, rfl⟩ := Prod.mk.inj h
          exact .inr (peerSize_netRead hread)
  · obtain ⟨rfl, -⟩ := Prod.mk.inj h
    exact .inl (done_fail d)

/-! ## Rounds -/

/-- **The loop stands still**: a line has not come to its end, and what the header has announced for
the body is there. -/
structure Stalled (d : Decode) : Prop where
  going : d.done = false
  length : d.contentLength ≠ 0#32
  fits : d.contentLength.toNat ≤ d.decodebuffer.length
  unended : peekNetline d.decodebuffer = .unended
  lines : d.detect.readMode ≠ .raw

theorem detect_fields (d : Decode) : d.detect.decodebuffer = d.decodebuffer
    ∧ d.detect.contentLength = d.contentLength ∧ d.detect.done = d.done := by
  rw [detect]
  split_ifs
  · exact ⟨rfl, rfl, rfl⟩
  · cases autoSenseHttpUue d.decodebuffer <;> exact ⟨rfl, rfl, rfl⟩
  · exact ⟨rfl, rfl, rfl⟩

theorem detect_net (d : Decode) (net : Netstate) :
    ({ d with net := net } : Decode).detect = { d.detect with net := net } := by
  rw [detect, detect]
  split_ifs
  · rfl
  · cases autoSenseHttpUue d.decodebuffer <;> rfl
  · rfl

theorem detect_of_known (h : d.modedetPending = false) : d.detect = d := by
  rw [detect, h, if_neg Bool.false_ne_true]

theorem detect_cases (d : Decode) : d.detect.modedetPending = false ∨ d.detect = d := by
  rw [detect]
  split_ifs with hpending
  · exact .inl rfl
  · cases autoSenseHttpUue d.decodebuffer with
    | some mode => exact .inl rfl
    | none => exact .inr rfl
  · exact .inr rfl

theorem detect_detect (d : Decode) : d.detect.detect = d.detect := by
  rcases d.detect_cases with hknown | hsame
  · exact detect_of_known hknown
  · rw [hsame, hsame]

/-- Nothing can be read exactly if the length that is announced has come. -/
theorem request_eq_zero : d.request = 0 ↔
    d.contentLength ≠ 0#32 ∧ d.contentLength.toNat ≤ d.decodebuffer.length := by
  rw [request]
  split_ifs with h
  · exact iff_of_false (by decide) fun h' ↦ h'.1 h
  · rw [Nat.sub_eq_zero_iff_le]
    exact (and_iff_right h).symm

/-- A mode that is not known yet needs more data than has come. -/
theorem request_of_pending (hpending : d.detect.modedetPending = true) : d.detect.request ≠ 0 := by
  rw [detect] at hpending ⊢
  split_ifs at hpending ⊢ with hold hlen
  · cases hsense : autoSenseHttpUue d.decodebuffer with
    | some mode =>
      rw [hsense] at hpending
      exact absurd hpending Bool.false_ne_true
    | none =>
      have hfew := autoSenseHttpUue_eq_none.mp hsense
      dsimp only
      rw [ne_eq, request_eq_zero, not_and]
      intro _
      omega
  · exact absurd hpending hold

/-- What has come is decoded: the loop is done, or something has been consumed, or nothing and all
is as it was, or there is something to be read. -/
theorem decode_spec (host : NetHost) (hgoing : d.done = false) :
    ∃ d', decode host d = some d' ∧ (d'.done = true ∨ d'.request ≠ 0
      ∨ d'.decodebuffer.length < d.decodebuffer.length ∨ d.Stalled) := by
  obtain ⟨hbuffer, hlength, hdone⟩ := d.detect_fields
  rw [decode]
  -- the loops over lines
  have hlines : ∀ (line : Decode → Option (Decode × Bool)) (net : Netstate),
      (∀ d, ∃ d' more, line d = some (d', more) ∧ Looked d d' more) → d.detect.readMode ≠ .raw →
      ∃ d', linesLoop line (d.detect.decodebuffer.length + 1) { d.detect with net := net } = some d'
        ∧ (d'.done = true ∨ d'.request ≠ 0
          ∨ d'.decodebuffer.length < d.decodebuffer.length ∨ d.Stalled) := by
    intro line net hline hmode
    obtain ⟨d', hd', hlooked⟩ := linesLoop_looked (d := { d.detect with net := net }) hline
      (d.detect.decodebuffer.length + 1) (Nat.lt_succ_self _)
    refine ⟨d', hd', ?_⟩
    rcases hlooked.stop rfl with hdone' | hlt | ⟨rfl, hpeek⟩
    · exact .inl hdone'
    · rw [← hbuffer]
      exact .inr (.inr (.inl hlt))
    · by_cases hrequest : ({ d.detect with net := net } : Decode).request = 0
      · obtain ⟨hne, hle⟩ := request_eq_zero.mp hrequest
        rw [hlength] at hne hle
        rw [hbuffer] at hle hpeek
        exact .inr (.inr (.inr ⟨hgoing, hne, hle, hpeek, hmode⟩))
      · exact .inr (.inl hrequest)
  dsimp only
  split
  · next hmode =>
    exact hlines (fun d ↦ some (httpLine host d)) _ (fun d ↦ ⟨_, _, rfl, httpLine_looked host d⟩)
      (by rw [hmode]; decide)
  · next hmode => exact hlines _ _ (uueLine_looked host) (by rw [hmode]; decide)
  · refine ⟨_, rfl, ?_⟩
    rw [rawData]
    split_ifs with hpending hroom
    · exact .inr (.inl (request_of_pending hpending))
    · refine .inr (.inl fun hrequest ↦ ?_)
      obtain ⟨hne, hle⟩ := request_eq_zero.mp hrequest
      exact hne (BitVec.eq_of_toNat_eq (Nat.le_zero.mp hle))
    · exact .inl rfl

/-- What stands still stays so. -/
theorem Stalled.round (h : d.Stalled) (host : NetHost) (peer : List Chunk) :
    ∃ d', round host (d, peer) = some (d', peer) ∧ d'.Stalled := by
  obtain ⟨hbuffer, hlength, hdone⟩ := d.detect_fields
  have hpeek : peekNetline d.detect.decodebuffer = .unended := by
    rw [hbuffer]
    exact h.unended
  -- the line is looked at, and left
  have hlines : ∀ line : Decode → Option (Decode × Bool),
      (∀ d, peekNetline d.decodebuffer = .unended → line d = some (d, false)) →
      ∀ d, peekNetline d.decodebuffer = .unended → ∀ n, linesLoop line (n + 1) d = some d := by
    intro line hline d hd n
    rw [linesLoop, hline d hd, Option.bind_some]
    exact if_neg Bool.false_ne_true
  obtain ⟨net, hdecode⟩ : ∃ net, decode host d = some { d.detect with net := net } := by
    rw [decode]
    dsimp only
    split
    · refine ⟨_, hlines _ (fun d hd ↦ ?_) _ ?_ _⟩
      · rw [httpLine, hd]
      · exact hpeek
    · refine ⟨_, hlines _ (fun d hd ↦ ?_) _ ?_ _⟩
      · rw [uueLine, hd]
      · exact hpeek
    · next hmode => exact absurd hmode h.lines
  have hstalled : ({ d.detect with net := net } : Decode).Stalled :=
    ⟨hdone.trans h.going, by rw [hlength]; exact h.length, by rw [hlength, hbuffer]; exact h.fits,
      hpeek, by rw [detect_net, detect_detect]; exact h.lines⟩
  have hrequest := request_eq_zero.mpr ⟨hstalled.length, hstalled.fits⟩
  refine ⟨_, ?_, hstalled⟩
  rw [Decode.round, hdecode, Option.map_some, if_neg (by rw [hstalled.going]; decide), readMore,
    if_pos hrequest]

/-- What is left to come, and of what has come. -/
def headway (s : Decode × List Chunk) : ℕ × ℕ := (peerSize s.2, s.1.decodebuffer.length)

/-- The order in which rounds make headway. -/
def Before (s t : Decode × List Chunk) : Prop :=
  Prod.Lex (· < ·) (· < ·) (headway s) (headway t)

theorem wellFounded_before : WellFounded Before :=
  InvImage.wf headway (WellFounded.prod_lex wellFounded_lt wellFounded_lt)

/-- **A round** makes headway, or the loop stands still. -/
theorem round_spec (host : NetHost) {s : Decode × List Chunk} (hgoing : s.1.done = false) :
    ∃ t, Decode.round host s = some t ∧ (¬s.1.Stalled → t.1.done = true ∨ Before t s) := by
  obtain ⟨d, hdecode, hspec⟩ := decode_spec host hgoing
  refine ⟨_, by rw [Decode.round, hdecode, Option.map_some], fun hfree ↦ ?_⟩
  cases hdone : d.done with
  | true => exact .inl (by rw [if_pos rfl]; exact hdone)
  | false =>
    rw [if_neg Bool.false_ne_true]
    by_cases hrequest : d.request = 0
    · have hlt : d.decodebuffer.length < s.1.decodebuffer.length := by
        rcases hspec with h | h | h | h
        · exact absurd (hdone.symm.trans h) Bool.false_ne_true
        · exact absurd hrequest h
        · exact h
        · exact absurd h hfree
      rw [readMore, if_pos hrequest]
      exact .inr (Prod.Lex.right _ hlt)
    · rcases readMore_spec host s.2 hrequest rfl with h | h
      · exact .inl h
      · exact .inr (Prod.Lex.left _ _ h)

/-- **The loop returns exactly if it does not come to stand still.** -/
theorem loop_returns_iff (host : NetHost) (s : Decode × List Chunk) :
    (∃ fuel t, loop host fuel s = some t) ↔
      ∀ t, Run.Visits (fun s ↦ s.1.done) (Decode.round host) s t → ¬t.1.Stalled := by
  refine Run.exists_whileLoop_iff wellFounded_before (fun s hs ↦ ?_) (fun s t hs hround hfree ↦ ?_)
    (fun s hs ↦ ?_) s
  · obtain ⟨t, ht, -⟩ := round_spec host hs
    exact ⟨t, ht⟩
  · obtain ⟨t', ht', hspec⟩ := round_spec host hs
    obtain rfl := Option.some.inj (hround.symm.trans ht')
    exact hspec hfree
  · obtain ⟨d', hd', hstalled⟩ := hs.round host s.2
    exact ⟨hs.going, (d', s.2), hd', hstalled⟩

end Decode

/-- It is the loop that returns or not. -/
theorem exists_netconnRead_iff {host : NetHost} {net : Netstate} {numRequested : ℤ}
    {peer : List Chunk} {s : Decode × List Chunk}
    (h : netconnStart host net numRequested peer = .inr s) :
    (∃ fuel r, netconnRead host fuel net numRequested peer = some r) ↔
      ∃ fuel t, Decode.loop host fuel s = some t := by
  refine exists_congr fun fuel ↦ ?_
  rw [netconnRead, h]
  dsimp only
  refine ⟨fun ⟨r, hr⟩ ↦ ?_, fun ⟨t, ht⟩ ↦ ⟨_, by rw [ht, Option.map_some]⟩⟩
  obtain ⟨t, ht, -⟩ := Option.map_eq_some_iff.mp hr
  exact ⟨t, ht⟩

/-- **`netconnRead` returns exactly if its loop does not come to stand still.** -/
theorem netconnRead_returns_iff (host : NetHost) (net : Netstate) (numRequested : ℤ)
    (peer : List Chunk) :
    (∃ fuel r, netconnRead host fuel net numRequested peer = some r) ↔
      ∀ s, netconnStart host net numRequested peer = .inr s →
        ∀ t, Run.Visits (fun s ↦ s.1.done) (Decode.round host) s t → ¬t.1.Stalled := by
  cases hstart : netconnStart host net numRequested peer with
  | inl r =>
    refine iff_of_true ⟨0, r, ?_⟩ fun s hs ↦ nomatch hs
    rw [netconnRead, hstart]
  | inr s =>
    rw [exists_netconnRead_iff hstart, Decode.loop_returns_iff]
    exact ⟨fun h s' hs' ↦ Sum.inr.inj hs' ▸ h, fun h ↦ h s rfl⟩

/-- A header up to the middle of a line: `HTTP/1.0 200`, `Content-Length: 3`, `Date`. -/
def partialHeader : List U8 :=
  [72#8, 84#8, 84#8, 80#8, 47#8, 49#8, 46#8, 48#8, 32#8, 50#8, 48#8, 48#8, 13#8, 10#8, 67#8,
    111#8, 110#8, 116#8, 101#8, 110#8, 116#8, 45#8, 76#8, 101#8, 110#8, 103#8, 116#8, 104#8, 58#8,
    32#8, 51#8, 13#8, 10#8, 68#8, 97#8, 116#8, 101#8]

/-- The loop after the lines that have come. -/
def stalledHeader : Decode where
  net := { newNet with modeHttp := true }
  readMode := .http
  decodebuffer := [68#8, 97#8, 116#8, 101#8]
  contentLength := 3#32
  modedetPending := false
  httpClose := false
  needClose := false
  gotfullpacket := false

theorem stalled_stalledHeader : stalledHeader.Stalled where
  going := rfl
  length := by decide
  fits := by decide
  unended := by decide
  lines := by decide

/-- **A header that announces three bytes**, and whose next line has come up to its fourth
character, is looked at for ever. -/
theorem not_netconnRead_returns : ¬∀ (host : NetHost) (net : Netstate) (numRequested : ℤ)
    (peer : List Chunk), ∃ fuel r, netconnRead host fuel net numRequested peer = some r := by
  intro h
  let s := (enter plainHost newNet .http (partialHeader.take 6),
    [Chunk.bytes (partialHeader.drop 6)])
  let t := ({ enter plainHost newNet .http partialHeader with
    net := { newNet with modeHttp := true } }, ([] : List Chunk))
  have hstart : netconnStart plainHost newNet 6 [.bytes partialHeader] = .inr s := by
    decide +kernel
  have hfirst : Decode.round plainHost s = some t := by decide +kernel
  have hsecond : Decode.round plainHost t = some (stalledHeader, []) := by decide +kernel
  have hreturns := (exists_netconnRead_iff hstart).mp (h plainHost newNet 6 [.bytes partialHeader])
  have hvisits : Run.Visits (fun s ↦ s.1.done) (Decode.round plainHost) s (stalledHeader, []) :=
    (Run.Visits.here.next rfl hfirst).next rfl hsecond
  exact (Decode.loop_returns_iff plainHost s).mp hreturns _ hvisits stalled_stalledHeader

end Hyunjin.Net

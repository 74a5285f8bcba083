import Hyunjin.Buffer.Moo

/-!
# The byte order of the work union

On a little-endian machine `ntohs` and `ntohl` reverse the bytes of a field. `switchByteOrder` is
compared with the layout of the work union: for OGR-NG it reverses the fields that are declared, but
for the ticket; for RC5-72 it reverses the words of the whole union, and the declared fields end
eight bytes before the union does.
-/

namespace Hyunjin

open Word Stdio

/-! ## Fields -/

/-- The bytes of each field reversed, in a row of fields that have these sizes; what is behind the
last field stays. -/
def reverseFields : List ℕ → List U8 → List U8
  | [], bytes => bytes
  | size :: sizes, bytes => (bytes.take size).reverse ++ reverseFields sizes (bytes.drop size)

theorem reverseFields_append {sizes : List ℕ} {bytes : List U8} (h : sizes.sum = bytes.length)
    (sizes' : List ℕ) (bytes' : List U8) : reverseFields (sizes ++ sizes') (bytes ++ bytes') =
      reverseFields sizes bytes ++ reverseFields sizes' bytes' := by
  induction sizes generalizing bytes with
  | nil =>
    obtain rfl := List.eq_nil_of_length_eq_zero h.symm
    rfl
  | cons size sizes ih =>
    rw [List.sum_cons] at h
    rw [List.cons_append, reverseFields, reverseFields, List.take_append_of_le_length (by omega),
      List.drop_append_of_le_length (by omega), ih (by rw [List.length_drop]; omega),
      List.append_assoc]

/-- The fields of `bigcrypto`, up to `check`. -/
def bigcryptoFields : List ℕ := List.replicate 18 4

/-- The fields of `ogr_ng`: those of the workstub, `nodes` and `ticket`. -/
def ogrNgFields : List ℕ := List.replicate 32 2 ++ List.replicate 2 4 ++ List.replicate 2 4

/-- The fields that are declared for a contest. -/
def declaredFields (contest : U32) : List ℕ :=
  if contest = RC5_72 then bigcryptoFields else ogrNgFields

/-- The fields that are reversed. -/
def switchedFields (contest : U32) : List ℕ :=
  if contest = RC5_72 then List.replicate 20 4 else List.replicate 32 2 ++ List.replicate 2 4

/-- The bytes of a work union. -/
def workBytes (r : WorkRecord) : List U8 := ofLEWords r.work.val

/-! ## What is reversed -/

theorem leBytes_byteSwap (x : U32) : leBytes (byteSwap x) = (leBytes x).reverse := by
  obtain ⟨a, b, c, d, rfl⟩ := exists_ofLE x
  rw [byteSwap_ofLE, leBytes_ofLE, leBytes_ofLE]
  rfl

theorem ofLEWords_map_byteSwap (ws : List U32) :
    ofLEWords (ws.map byteSwap) = reverseFields (List.replicate ws.length 4) (ofLEWords ws) := by
  induction ws with
  | nil => rfl
  | cons x ws ih =>
    rw [List.map_cons, ofLEWords_cons, ofLEWords_cons, List.length_cons, List.replicate_succ,
      reverseFields, List.take_left' (length_leBytes x), List.drop_left' (length_leBytes x), ih,
      leBytes_byteSwap]

theorem ofLEWords_map_swapHalves (ws : List U32) : ofLEWords (ws.map swapHalves) =
    reverseFields (List.replicate (2 * ws.length) 2) (ofLEWords ws) := by
  induction ws with
  | nil => rfl
  | cons x ws ih =>
    obtain ⟨a, b, c, d, rfl⟩ := exists_ofLE x
    rw [List.map_cons, ofLEWords_cons, ofLEWords_cons, ih, swapHalves_ofLE, leBytes_ofLE,
      leBytes_ofLE, List.length_cons, Nat.mul_succ]
    rfl

/-- The words of an OGR-NG work union: the workstub, the nodes and the ticket. -/
theorem mapIdx_swapOgrWord {stub nodes ticket : List U32} (hstub : stub.length = 16)
    (hnodes : nodes.length = 2) : (stub ++ nodes ++ ticket).mapIdx swapOgrWord =
      stub.map swapHalves ++ nodes.map byteSwap ++ ticket := by
  have hlow : stub.mapIdx swapOgrWord = stub.map swapHalves := by
    refine List.ext_getElem (by simp) fun i hi _ ↦ ?_
    rw [List.length_mapIdx, hstub] at hi
    rw [List.getElem_mapIdx, List.getElem_map, swapOgrWord, if_pos hi]
  have hmid : nodes.mapIdx (fun i ↦ swapOgrWord (i + 16)) = nodes.map byteSwap := by
    refine List.ext_getElem (by simp) fun i hi _ ↦ ?_
    rw [List.length_mapIdx, hnodes] at hi
    rw [List.getElem_mapIdx, List.getElem_map, swapOgrWord, if_neg (by omega), if_pos (by omega)]
  have hhigh : ticket.mapIdx (fun i ↦ swapOgrWord (i + 18)) = ticket := by
    refine List.ext_getElem (by simp) fun i _ _ ↦ ?_
    rw [List.getElem_mapIdx, swapOgrWord, if_neg (by omega), if_neg (by omega)]
  rw [List.mapIdx_append, List.mapIdx_append, hlow, List.length_append, hstub, hnodes, hmid, hhigh]

theorem ofLEWords_swapOgrWork (work : ContestWork) : ofLEWords (swapOgrWork work).val =
    reverseFields (List.replicate 32 2 ++ List.replicate 2 4) (ofLEWords work.val) := by
  obtain ⟨ws, hws⟩ := work
  obtain ⟨stub, nodes, ticket, rfl, hstub, hnodes⟩ :
      ∃ stub nodes ticket, ws = stub ++ nodes ++ ticket ∧ stub.length = 16 ∧ nodes.length = 2 := by
    refine ⟨ws.take 16, (ws.drop 16).take 2, (ws.drop 16).drop 2, ?_, ?_, ?_⟩
    · rw [List.append_assoc, List.take_append_drop, List.take_append_drop]
    · rw [List.length_take, hws]
      rfl
    · rw [List.length_take, List.length_drop, hws]
      rfl
  have hstubs : (List.replicate 32 2).sum = (ofLEWords stub).length := by simp [hstub]
  have hboth : (List.replicate 32 2 ++ List.replicate 2 4).sum =
      (ofLEWords (stub ++ nodes)).length := by simp [hstub, hnodes]
  have hrest := reverseFields_append hboth [] (ofLEWords ticket)
  have hwords := reverseFields_append hstubs (List.replicate 2 4) (ofLEWords nodes)
  have hlow := ofLEWords_map_swapHalves stub
  have hmid := ofLEWords_map_byteSwap nodes
  rw [hstub] at hlow
  rw [hnodes] at hmid
  rw [List.append_nil, ← ofLEWords_append, ofLEWords_append stub, hwords] at hrest
  rw [hrest, swapOgrWork]
  dsimp only
  rw [mapIdx_swapOgrWord hstub hnodes, ofLEWords_append, ofLEWords_append, hlow, hmid]
  rfl

/-- **The fields that are reversed**, in a record of either contest. Nothing else is changed but the
last byte of the id. -/
theorem switchByteOrder_fields {r : WorkRecord} (h : r.contest = RC5_72 ∨ r.contest = OGR_NG) :
    switchByteOrder r =
        { r with work := (switchByteOrder r).work, id := nulTerminate r.id } ∧
      workBytes (switchByteOrder r) = reverseFields (switchedFields r.contest) (workBytes r) := by
  rcases h with h | h
  · rw [switchByteOrder_rc5 h, switchedFields, if_pos h]
    refine ⟨rfl, ?_⟩
    have hwords := ofLEWords_map_byteSwap r.work.val
    rwa [r.work.property] at hwords
  · rw [switchByteOrder_ogr h, switchedFields, if_neg (by rw [h]; decide)]
    exact ⟨rfl, ofLEWords_swapOgrWork r.work⟩

/-! ## Switching and writing -/

/-- A record of one of the two contests, with an id that ends in NUL. -/
structure Handled (r : WorkRecord) : Prop where
  contest : r.contest = RC5_72 ∨ r.contest = OGR_NG
  nul : r.id.val[63]? = some 0#8

theorem nulTerminate_of_nul {id : Bytes 64} (h : id.val[63]? = some 0#8) :
    nulTerminate id = id := by
  have hlt : 63 < id.val.length := by rw [id.property]; decide
  refine Subtype.ext ?_
  rw [List.getElem?_eq_getElem hlt, Option.some.injEq] at h
  change id.val.set 63 0#8 = id.val
  rw [← h, List.set_getElem_self]

/-- Only fields that are declared for the contest are changed, and the last byte of the id. -/
def ChangesDeclared (r : WorkRecord) : Prop :=
  (workBytes (switchByteOrder r)).drop (declaredFields r.contest).sum =
      (workBytes r).drop (declaredFields r.contest).sum ∧
    switchByteOrder r = { r with work := (switchByteOrder r).work, id := nulTerminate r.id }

/-- Whatever Moo file a record is written to, its work union is read back from the slot. -/
def MooRestores (r : WorkRecord) : Prop :=
  ∀ (bs : List U8) (p reccount : ℕ), ∃ n d,
    mooWriteOneRecord ⟨some bs, p, []⟩ reccount r = (some n, d) ∧ ∃ r' d',
      mooReadOneRecord d (blankSlot bs reccount reccount 0) = (.record r', d') ∧ r'.work = r.work

theorem mooRestores_iff (r : WorkRecord) :
    MooRestores r ↔ (mooUnpackRecord (mooPackRecord r)).work = r.work := by
  have hread (bs : List U8) (p reccount : ℕ) : ∃ n d d',
      mooWriteOneRecord ⟨some bs, p, []⟩ reccount r = (some n, d) ∧
        mooReadOneRecord d (blankSlot bs reccount reccount 0) =
          (.record (mooUnpackRecord (mooPackRecord r)), d') := by
    obtain ⟨q, hwrite⟩ := mooWriteOneRecord_healthy bs p reccount r
    obtain ⟨n, bs', hput⟩ : ∃ n bs', mooWriteOneRecord ⟨some bs, p, []⟩ reccount r =
        (some n, ⟨some (putPacketAt bs' (blankSlot bs reccount reccount 0) (mooPackRecord r)), q,
          []⟩) := by
      dsimp only at hwrite
      split_ifs at hwrite with hlast
      · exact ⟨_, _, hwrite⟩
      · exact ⟨_, _, hwrite⟩
    obtain ⟨q', hslot⟩ := mooReadOneRecord_healthy
      (putPacketAt bs' (blankSlot bs reccount reccount 0) (mooPackRecord r)) q
      (blankSlot bs reccount reccount 0)
    rw [packetAt_putPacketAt_self] at hslot
    dsimp only at hslot
    rw [if_neg (mooPackRecord_ne_blank r)] at hslot
    exact ⟨n, _, _, hput, hslot⟩
  constructor
  · intro h
    obtain ⟨n, d, hwrite, r', d', hslot, hwork⟩ := h [] 0 0
    obtain ⟨n', e, e', hwrite', hslot'⟩ := hread [] 0 0
    obtain ⟨-, rfl⟩ := Prod.mk.inj (hwrite.symm.trans hwrite')
    rw [hslot, Prod.mk.injEq, SlotRead.record.injEq] at hslot'
    rw [← hslot'.1, hwork]
  · intro h bs p reccount
    obtain ⟨n, d, d', hwrite, hslot⟩ := hread bs p reccount
    exact ⟨n, d, hwrite, _, d', hslot, h⟩

/-- **Switching the byte order** twice changes nothing. It reverses the words of an RC5-72 work
union, and the fields of an OGR-NG one but for the ticket. An RC5-72 record that is written to a Moo
file is read back with its work union. -/
theorem switchByteOrder_exact (r : WorkRecord) :
    (Handled r → switchByteOrder (switchByteOrder r) = r) ∧
    (r.contest = RC5_72 ∨ r.contest = OGR_NG →
      switchByteOrder r = { r with work := (switchByteOrder r).work, id := nulTerminate r.id } ∧
        workBytes (switchByteOrder r) = reverseFields (switchedFields r.contest) (workBytes r)) ∧
    (r.contest = RC5_72 → MooRestores r) := by
  refine ⟨fun h ↦ ?_, switchByteOrder_fields, fun h ↦ (mooRestores_iff r).mpr ?_⟩
  · rw [switchByteOrder_switchByteOrder h.contest, nulTerminate_of_nul h.nul]
  · rw [mooUnpack_pack h]

/-- A record with a single bit in its work union. -/
def oneBit (contest : U32) (i : Fin 20) : WorkRecord where
  work := ⟨(List.replicate 20 0#32).set i 1#32, by simp⟩
  resultcode := RESULT_WORKING
  id := Bytes.zero 64
  contest := contest
  cpu := 0#32
  os := 0#32
  build := 0#32
  core := 0#32

/-- **The words behind the fields** of RC5-72 are reversed as well, and an OGR-NG record does not
come back from a Moo file. -/
theorem not_switchByteOrder_declared : (Handled (oneBit RC5_72 18) ∧
      ¬ChangesDeclared (oneBit RC5_72 18)) ∧
    Handled (oneBit OGR_NG 0) ∧ ¬MooRestores (oneBit OGR_NG 0) := by
  refine ⟨⟨⟨Or.inl rfl, by decide +kernel⟩, fun h ↦ absurd h.1 (by decide +kernel)⟩,
    ⟨Or.inr rfl, by decide +kernel⟩, fun h ↦ ?_⟩
  rw [mooRestores_iff, mooUnpack_pack_ogr rfl] at h
  exact absurd h (by decide +kernel)

end Hyunjin

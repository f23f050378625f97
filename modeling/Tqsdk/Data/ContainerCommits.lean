import Tqsdk.Data.HistoryContainer

/-!
# Commits of the history container

What a commit leaves in the file: the slot of its generation, the index it names and the payloads
of its blocks.  What lay in the file before keeps its place.
-/

namespace Tqsdk

open List Result

namespace HistoryContainer

variable {M : Type} {wire : IndexWire M} {index : Index M} {blocks : List EncodedBlock}
  {position : Nat} {file : List Nat} {write : CommitWrite M}

/-! ## Slots -/

theorem checksum_lt (bs : List Nat) : checksum bs < 2 ^ 64 := by
  rcases eq_nil_or_concat bs with rfl | ⟨fst, last, rfl⟩
  · decide
  · rw [checksum, concat_eq_append, foldl_append, foldl_cons, foldl_nil]
    exact Nat.mod_lt _ (Nat.two_pow_pos 64)

/-- The words of a commit are numbers of 64 bits. -/
def Commit.Fits (commit : Commit) : Prop := ∀ word ∈ commit.words, word < 2 ^ 64

theorem Commit.length_slot (com : Commit) : com.slot.length = slotBytes := by
  rw [slot, length_append, Bytes.length_ofWords, Bytes.length_littleEndian]
  rfl

theorem readSlot_eq {com : Commit} {slot : Nat} (fits : com.Fits) (pos : com.generation ≠ 0)
    (put : Bytes.slice file (8 + slot * slotBytes) slotBytes = com.slot) :
    readSlot file slot = some com := by
  have fst : com.slot.take 40 = Bytes.ofWords com.words := take_left' (Bytes.length_ofWords _)
  have word (i : Nat) (inside : i < com.words.length) :
      Bytes.wordAt com.slot i = com.words[i] := Bytes.wordAt_ofWords _ i inside fits
  have dig : Bytes.wordAt com.slot 5 = checksum (Bytes.ofWords com.words) := by
    have wid := Bytes.length_littleEndian 8 (checksum (Bytes.ofWords com.words))
    have fst : (Bytes.ofWords com.words).length = 5 * 8 := Bytes.length_ofWords _
    rw [Bytes.wordAt, Commit.slot, drop_left' fst, take_of_length_le wid.le]
    exact Bytes.ofLittleEndian_littleEndian 8 (checksum_lt _)
  have zeroth : Bytes.wordAt com.slot 0 = com.generation := word 0 (show 0 < 5 by decide)
  have hd : Bytes.wordAt com.slot 1 = com.offset := word 1 (show 1 < 5 by decide)
  have snd : Bytes.wordAt com.slot 2 = com.len := word 2 (show 2 < 5 by decide)
  have third : Bytes.wordAt com.slot 3 = com.committedLen := word 3 (show 3 < 5 by decide)
  have fourth : Bytes.wordAt com.slot 4 = com.digest := word 4 (show 4 < 5 by decide)
  unfold readSlot
  dsimp only
  rw [put, fst, zeroth, hd, snd, third, fourth, dig,
    if_neg (by rintro (zero | other); exacts [pos zero, other rfl])]

theorem readSlot_congr {alt : List Nat} {slot : Nat}
    (same : Bytes.slice file (8 + slot * slotBytes) slotBytes =
      Bytes.slice alt (8 + slot * slotBytes) slotBytes) :
    readSlot file slot = readSlot alt slot := by
  unfold readSlot
  rw [same]

theorem slotOffset_le (gen : Nat) : slotOffset gen + slotBytes ≤ headerBytes := by
  unfold slotOffset headerBytes slotBytes
  omega

/-! ## The parts of a commit -/

/-- What a commit that is written was checked for. -/
structure WriteParts (wire : IndexWire M) (index : Index M) (position : Nat)
    (blocks : List EncodedBlock) (write : CommitWrite M) : Prop where
  index_eq : write.index =
    { index with blocks := index.blocks ++ (placeBlocks position blocks).1 }
  valid : write.index.validate (placeBlocks position blocks).2 = .ok ()
  suffix_eq : write.suffix =
    (blocks.flatMap fun encoded => encoded.payload) ++ wire.toBytes write.index
  commit_eq : write.commit = ⟨index.generation + 1, (placeBlocks position blocks).2,
    (wire.toBytes write.index).length,
    (placeBlocks position blocks).2 + (wire.toBytes write.index).length,
    checksum (wire.toBytes write.index)⟩
  small : (wire.toBytes write.index).length ≤ maxIndexBytes
  generation : index.generation + 1 < u64Bound
  bounded : (placeBlocks position blocks).2 + (wire.toBytes write.index).length < u64Bound

theorem writeCommit_parts (ok : writeCommit wire index position blocks = .ok write) :
    WriteParts wire index position blocks write := by
  unfold writeCommit at ok
  split at ok
  · cases ok
  rename_i gen
  dsimp only at ok
  obtain ⟨⟨⟩, fine, ok⟩ := of_bind ok
  split_ifs at ok with large bnds
  obtain rfl := Except.ok.inj ok
  exact ⟨rfl, fine, rfl, rfl, not_lt.mp large, not_le.mp gen, not_le.mp bnds⟩

theorem writeCommit_eq_ok (gen : index.generation + 1 < u64Bound)
    (fine : { index with blocks := index.blocks ++ (placeBlocks position blocks).1 }.validate
      (placeBlocks position blocks).2 = .ok ()) (small : (wire.toBytes
      { index with blocks := index.blocks ++ (placeBlocks position blocks).1 }).length ≤
        maxIndexBytes) (bounded : (placeBlocks position blocks).2 + (wire.toBytes
      { index with blocks := index.blocks ++ (placeBlocks position blocks).1 }).length < u64Bound) :
    ∃ write, writeCommit wire index position blocks = .ok write := by
  unfold writeCommit
  rw [if_neg (not_le.mpr gen)]
  dsimp only
  rw [fine, ok_bind, if_neg (not_lt.mpr small), if_neg (not_le.mpr bounded)]
  exact ⟨_, rfl⟩

theorem placeBlocks_snd (position : Nat) (blocks : List EncodedBlock) :
    (placeBlocks position blocks).2 =
      position + (blocks.flatMap fun enc => enc.payload).length := by
  induction blocks generalizing position with
  | nil => rfl
  | cons enc blocks ih =>
    rw [placeBlocks, flatMap_cons, length_append, ← Nat.add_assoc]
    exact ih _

theorem slice_placeBlocks {fst back : List Nat} {i : Nat} {enc : EncodedBlock}
    (lo : fst.length = position) (hit : blocks[i]? = some enc) :
    ∃ off, (placeBlocks position blocks).1[i]? = some { enc.block with offset := off } ∧
      position ≤ off ∧ off + enc.payload.length ≤ (placeBlocks position blocks).2 ∧
      Bytes.slice (fst ++ ((blocks.flatMap fun enc => enc.payload) ++ back)) off
        enc.payload.length = enc.payload := by
  induction blocks generalizing position fst i with
  | nil => cases hit
  | cons hd blocks ih =>
    have stop := placeBlocks_snd position (hd :: blocks)
    rw [flatMap_cons, length_append] at stop
    cases i with
    | zero =>
      obtain rfl := Option.some.inj hit
      refine ⟨position, rfl, le_rfl, by omega, ?_⟩
      rw [flatMap_cons, append_assoc, Bytes.slice_append_right _ _ lo.symm, take_left' rfl]
    | succ i =>
      obtain ⟨off, put, post, pre, same⟩ :=
        @ih (position + hd.payload.length) (fst ++ hd.payload) i (by rw [length_append, lo]) hit
      refine ⟨off, put, by omega, pre, ?_⟩
      rw [flatMap_cons, append_assoc, ← append_assoc fst]
      exact same

/-! ## The file behind a commit -/

section Apply

variable (write : CommitWrite M) (long : headerBytes ≤ file.length)

include long

theorem length_apply : (write.apply file).length = file.length + write.suffix.length := by
  have slot := slotOffset_le write.commit.generation
  rw [CommitWrite.apply, Bytes.length_patch, length_append]
  rw [write.commit.length_slot, length_append]
  omega

theorem take_apply : (write.apply file).take 8 = file.take 8 := by
  have pre : 8 ≤ slotOffset write.commit.generation := Nat.le_add_right _ _
  have same : Bytes.slice (write.apply file) 0 8 = Bytes.slice (file ++ write.suffix) 0 8 := by
    refine Bytes.slice_patch_before (by omega) ?_
    have slot := slotOffset_le write.commit.generation
    rw [length_append]
    omega
  have header : 8 ≤ file.length := le_trans (by decide) long
  exact same.trans (Bytes.slice_append _ (by omega))

theorem slice_apply_slot :
    Bytes.slice (write.apply file) (slotOffset write.commit.generation) slotBytes =
      write.commit.slot := by
  have slot := slotOffset_le write.commit.generation
  rw [← write.commit.length_slot]
  refine Bytes.slice_patch_self ?_
  rw [length_append]
  omega

theorem slice_apply_other {slot : Nat} (alt : slot < 2) (ne : slot ≠ write.commit.generation % 2) :
    Bytes.slice (write.apply file) (8 + slot * slotBytes) slotBytes =
      Bytes.slice file (8 + slot * slotBytes) slotBytes := by
  have mem : 8 + slot * slotBytes + slotBytes ≤ file.length := by
    refine le_trans ?_ long
    unfold headerBytes slotBytes
    omega
  have bnd := slotOffset_le write.commit.generation
  refine Eq.trans ?_ (Bytes.slice_append write.suffix mem)
  rcases Nat.lt_or_gt_of_ne ne with less | more
  · refine Bytes.slice_patch_before ?_ (by rw [length_append]; omega)
    unfold slotOffset slotBytes
    omega
  · refine Bytes.slice_patch_after ?_ (by rw [write.commit.length_slot, length_append]; omega)
    rw [write.commit.length_slot]
    unfold slotOffset slotBytes
    omega

theorem slice_apply_behind {off len : Nat} (post : headerBytes ≤ off) :
    Bytes.slice (write.apply file) off len = Bytes.slice (file ++ write.suffix) off len := by
  have bnd := slotOffset_le write.commit.generation
  refine Bytes.slice_patch_after ?_ (by rw [write.commit.length_slot, length_append]; omega)
  rw [write.commit.length_slot]
  omega

end Apply

/-! ## Reading what was committed -/

theorem validate_sizes {index : Index M} {off : Nat} (fine : index.validate off = .ok ()) :
    index.blocks.length ≤ maxEntries ∧ index.extents.length ≤ maxEntries ∧
      index.metadata.length ≤ maxEntries ∧ index.totalSlices ≤ maxEntries := by
  unfold Index.validate at fine
  split at fine
  · cases fine
  rename_i snd
  obtain ⟨⟨⟩, -, fine⟩ := of_bind fine
  split at fine
  · cases fine
  rename_i slcs
  unfold Index.BadIdentity at snd
  push Not at snd
  exact ⟨snd.2.2.2.2.2.2.1, snd.2.2.2.2.2.2.2.1, snd.2.2.2.2.2.2.2.2, not_lt.mp slcs⟩

/-- The index as a reader has it. -/
def CommitWrite.read (write : CommitWrite M) : Index M :=
  { write.index with
    generation := write.commit.generation, committedLen := write.commit.committedLen }

section Read

variable (ps : WriteParts wire index position blocks write) (long : headerBytes ≤ file.length)
  (clean : file.length = position)

include ps

theorem WriteParts.fits : write.commit.Fits := by
  have bdd := ps.bounded
  have gen := ps.generation
  unfold u64Bound at bdd gen
  intro word mem
  rw [ps.commit_eq] at mem
  simp only [Commit.words, mem_cons, not_mem_nil, or_false] at mem
  rcases mem with rfl | rfl | rfl | rfl | rfl
  · exact gen
  · omega
  · omega
  · exact bdd
  · exact checksum_lt _

include long clean

theorem WriteParts.length_apply :
    (write.apply file).length = write.commit.committedLen := by
  rw [HistoryContainer.length_apply write long, ps.suffix_eq, ps.commit_eq,
    placeBlocks_snd, length_append, clean, Nat.add_assoc]

theorem WriteParts.readCommit_apply (named : file.take 8 = magic)
    (older : ∀ other, readSlot file (index.generation % 2) = some other →
      other.generation ≤ index.generation) :
    readCommit (write.apply file) = .ok write.commit := by
  have gen : write.commit.generation = index.generation + 1 := by rw [ps.commit_eq]
  have off : write.commit.offset = (placeBlocks position blocks).2 := by rw [ps.commit_eq]
  have len : write.commit.len = (wire.toBytes write.index).length := by rw [ps.commit_eq]
  have stop : write.commit.committedLen = write.commit.offset + write.commit.len := by
    rw [ps.commit_eq]
  have place := placeBlocks_snd position blocks
  have size := ps.length_apply long clean
  have longer : headerBytes ≤ (write.apply file).length := by
    rw [HistoryContainer.length_apply write long]
    omega
  have newer : readSlot (write.apply file) (write.commit.generation % 2) = some write.commit :=
    readSlot_eq ps.fits (by omega) (slice_apply_slot write long)
  have kept : readSlot (write.apply file) (index.generation % 2) =
      readSlot file (index.generation % 2) :=
    readSlot_congr (slice_apply_other write long (by omega) (by omega))
  -- Whichever slot is the new one, the other names no commit or an older one.
  have pick : selectCommit (readSlot (write.apply file) 0) (readSlot (write.apply file) 1) =
      .ok write.commit := by
    cases other : readSlot file (index.generation % 2) with
    | none =>
      rw [other] at kept
      rcases Nat.mod_two_eq_zero_or_one index.generation with even | odd
      · rw [show write.commit.generation % 2 = 1 by omega] at newer
        rw [even] at kept
        rw [newer, kept, selectCommit]
      · rw [show write.commit.generation % 2 = 0 by omega] at newer
        rw [odd] at kept
        rw [newer, kept, selectCommit]
    | some com =>
      have pre := older com other
      rw [other] at kept
      rcases Nat.mod_two_eq_zero_or_one index.generation with even | odd
      · rw [show write.commit.generation % 2 = 1 by omega] at newer
        rw [even] at kept
        rw [newer, kept, selectCommit, if_neg (fun same => by omega), if_pos (by omega)]
      · rw [show write.commit.generation % 2 = 0 by omega] at newer
        rw [odd] at kept
        rw [newer, kept, selectCommit, if_neg (fun same => by omega), if_neg (by omega)]
  have small := ps.small
  have bdd := ps.bounded
  have eight : 8 ≤ headerBytes := by decide
  rw [readCommit, if_neg (by omega), take_apply write long, if_neg (not_not.mpr named),
    if_neg (by omega), pick, ok_bind, if_neg]
  rintro (low | large | wide | other | short) <;> omega

/-- The index that a commit names is what a reader loads. -/
theorem WriteParts.loadAny_apply (named : file.take 8 = magic)
    (older : ∀ alt, readSlot file (index.generation % 2) = some alt →
      alt.generation ≤ index.generation) :
    loadAny wire (write.apply file) = .ok write.read := by
  have off : write.commit.offset = (placeBlocks position blocks).2 := by rw [ps.commit_eq]
  have len : write.commit.len = (wire.toBytes write.index).length := by rw [ps.commit_eq]
  have dig : write.commit.digest = checksum (wire.toBytes write.index) := by rw [ps.commit_eq]
  have place := placeBlocks_snd position blocks
  have bs : Bytes.slice (write.apply file) write.commit.offset write.commit.len =
      wire.toBytes write.index := by
    rw [slice_apply_behind write long (by omega), ps.suffix_eq, ← append_assoc,
      Bytes.slice_append_right _ _ (by rw [length_append]; omega), len,
      take_of_length_le le_rfl]
  obtain ⟨few, fewExtents, fewMetadata, fewSlices⟩ := validate_sizes ps.valid
  have fine : Index.validate { write.index with generation := 0, committedLen := 0 }
      write.commit.offset = .ok () := by
    rw [off]
    exact ps.valid
  rw [loadAny, ps.readCommit_apply long clean named older, ok_bind]
  dsimp only
  rw [bs, if_neg (not_not.mpr dig.symm), wire.ofBytes_toBytes _ few fewExtents fewMetadata
    fewSlices, ok_bind, fine, ok_bind]
  rfl

/-- The payload of every block of a commit is where the index says. -/
theorem WriteParts.slice_apply {i : Nat} {enc : EncodedBlock} (hit : blocks[i]? = some enc) : ∃ off,
      write.index.blocks[index.blocks.length + i]? = some { enc.block with offset := off } ∧
      off + enc.payload.length ≤ write.commit.committedLen ∧
      Bytes.slice (write.apply file) off enc.payload.length = enc.payload := by
  obtain ⟨off, put, post, pre, same⟩ :=
    @slice_placeBlocks _ _ _ (wire.toBytes write.index) _ _ clean hit
  refine ⟨off, ?_, ?_, ?_⟩
  · rw [ps.index_eq, getElem?_append_right (Nat.le_add_right _ _), Nat.add_sub_cancel_left, put]
  · rw [ps.commit_eq]
    exact le_trans pre (Nat.le_add_right _ _)
  · rw [slice_apply_behind write long (by omega), ps.suffix_eq]
    exact same

end Read

/-! ## Reading what was encoded -/

theorem anyWindow_eq_false {α : Type} {bad : α → α → Bool} {R : α → α → Prop}
    (trans : ∀ a b c, R a b → R b c → R a c) (good : ∀ a b, bad a b = false ↔ R a b)
    (rows : List α) : anyWindow bad rows = false ↔ rows.Pairwise R := by
  induction rows with
  | nil => exact ⟨fun _ => .nil, fun _ => rfl⟩
  | cons hd rest ih =>
    cases rest with
    | nil => exact ⟨fun _ => pairwise_singleton _ _, fun _ => rfl⟩
    | cons snd rest =>
      rw [anyWindow, Bool.or_eq_false_iff, ih, good, @List.pairwise_cons _ R hd, and_congr_left_iff]
      intro ord
      constructor
      · intro here row mem
        cases mem with
        | head => exact here
        | tail _ mem => exact trans _ _ _ here ((pairwise_cons.mp ord).1 row mem)
      · exact fun every => every snd mem_cons_self

theorem anyWindow_datetime_lt (rows : List Tick) :
    anyWindow (fun left right => decide (right.datetime < left.datetime)) rows = false ↔
      rows.Pairwise fun left right => left.datetime ≤ right.datetime := by
  refine anyWindow_eq_false (fun _ _ _ hd snd => ?_) (fun left right => ?_) rows
  · exact le_trans hd snd
  · rw [decide_eq_false_iff_not, not_lt]

theorem anyWindow_datetime_le (rows : List StoredKline) :
    anyWindow (fun left right => decide (right.datetime ≤ left.datetime)) rows = false ↔
      rows.Pairwise fun left right => left.datetime < right.datetime := by
  refine anyWindow_eq_false (fun _ _ _ hd snd => ?_) (fun left right => ?_) rows
  · exact lt_trans hd snd
  · rw [decide_eq_false_iff_not, not_le]

theorem getLast?_cons_getLastD {α : Type} (hd : α) (rest : List α) :
    (hd :: rest).getLast? = some (rest.getLastD hd) := by
  rw [getLast?_cons, getLastD_eq_getLast?]

/-- The block that was encoded lies in a file. -/
structure Lies (file : List Nat) (index : Index M) (id : Nat) (encoded : EncodedBlock) (offset : Nat) :
    Prop where
  named : index.blocks[id]? = some { encoded.block with offset := offset }
  committed : offset + encoded.payload.length ≤ index.committedLen
  long : index.committedLen ≤ file.length
  bounded : index.committedLen < u64Bound
  slice : Bytes.slice file offset encoded.payload.length = encoded.payload

theorem Lies.readBlock {id off : Nat} {enc : EncodedBlock} {zstd : Option Zstd} {pld : List Nat}
    (lies : Lies file index id enc off) (ne : pld ≠ []) (small : pld.length ≤ maxBlockBytes)
    (packed : enc.payload = (compress zstd pld).1)
    (compression : enc.block.compression = (compress zstd pld).2)
    (len : enc.block.len = enc.payload.length) (decodedLen : enc.block.decodedLen = pld.length)
    (dig : enc.block.checksum = checksum enc.payload) :
    readBlock zstd file index id = .ok pld := by
  obtain ⟨-, shorter, -⟩ := compress_length zstd ne
  have comd := lies.committed
  have long := lies.long
  have bdd := lies.bounded
  rw [← packed] at shorter
  unfold HistoryContainer.readBlock
  rw [lies.named]
  dsimp only
  rw [len, decodedLen, dig, compression, if_neg (by omega), if_neg (by omega), lies.slice,
    if_neg (not_not.mpr rfl), packed, decompress_compress, ok_bind,
    if_neg (not_not.mpr rfl)]

theorem encodeTicks_parts {zstd : Option Zstd} {rows : List Tick} {enc : EncodedBlock}
    (got : ∀ row ∈ rows, row.Stored) (ok : encodeTicks zstd rows = .ok enc) :
    ∃ hd rest, rows = hd :: rest ∧ rows.length ≤ tickMaxRows ∧
      (rows.Pairwise fun left right => left.datetime ≤ right.datetime) ∧
      enc = ⟨⟨0, (compress zstd (tickPayload hd rest)).1.length,
        (tickPayload hd rest).length, checksum (compress zstd (tickPayload hd rest)).1,
        .tickXorV1, (compress zstd (tickPayload hd rest)).2, rows.length, hd.datetime,
        (rest.getLastD hd).datetime, boundsOf (rows.map Tick.id),
        some (tickOrderStrict rows)⟩, (compress zstd (tickPayload hd rest)).1⟩ := by
  cases rows with
  | nil => cases ok
  | cons hd rest =>
    rw [encodeTicks] at ok
    split at ok
    · cases ok
    rename_i snd
    obtain ⟨few, ord⟩ := not_or.mp snd
    rw [encodeTickPayload_eq_ok (not_lt.mp few) got, ok_bind] at ok
    obtain rfl := Except.ok.inj ok
    exact ⟨hd, rest, rfl, not_lt.mp few,
      (anyWindow_datetime_lt _).mp (eq_false_of_ne_true ord), rfl⟩

theorem encodeTicks_eq_ok (zstd : Option Zstd) {rows : List Tick} (ne : rows ≠ [])
    (few : rows.length ≤ tickMaxRows) (got : ∀ row ∈ rows, row.Stored)
    (ord : rows.Pairwise fun left right => left.datetime ≤ right.datetime) :
    ∃ enc, encodeTicks zstd rows = .ok enc := by
  cases rows with
  | nil => exact absurd rfl ne
  | cons hd rest =>
    rw [encodeTicks, if_neg, encodeTickPayload_eq_ok few got]
    · exact ⟨_, rfl⟩
    · rw [(anyWindow_datetime_lt _).mpr ord]
      rintro (large | absurd)
      · omega
      · cases absurd

theorem Lies.readTicks {id off : Nat} {enc : EncodedBlock} {zstd : Option Zstd}
    {rows : List Tick} (lies : Lies file index id enc off)
    (got : ∀ row ∈ rows, row.Stored) (ok : encodeTicks zstd rows = .ok enc) :
    readTicks zstd file index id = .ok rows := by
  obtain ⟨hd, rest, rfl, few, ord, rfl⟩ := encodeTicks_parts got ok
  obtain ⟨fine, small⟩ := tickPayload_valid few got
  have pld := lies.readBlock (show tickPayload hd rest ≠ [] from nofun) small rfl rfl rfl rfl rfl
  unfold HistoryContainer.readTicks
  rw [lies.named]
  dsimp only
  rw [if_neg (by rintro (other | absurd); exacts [other rfl, by rw [fine] at absurd; cases absurd]),
    pld, ok_bind, decodeTickPayload_tickPayload few got ord, ok_bind,
    if_neg]
  rintro (other | other | other | other)
  · exact other rfl
  · exact other rfl
  · rw [getLast?_cons_getLastD] at other
    exact other rfl
  · exact other rfl

theorem encodeKlines_parts {zstd : Option Zstd} {rows : List StoredKline} {enc : EncodedBlock}
    (ok : encodeKlines zstd rows = .ok enc) :
    ∃ hd rest, rows = hd :: rest ∧ rows.length * klineBytes ≤ maxBlockBytes ∧
      (rows.Pairwise fun left right => left.datetime < right.datetime) ∧
      enc = ⟨⟨0, (compress zstd (rows.flatMap StoredKline.encode)).1.length,
        rows.length * klineBytes, checksum (compress zstd (rows.flatMap StoredKline.encode)).1,
        .kline81, (compress zstd (rows.flatMap StoredKline.encode)).2, rows.length,
        hd.datetime, (rest.getLastD hd).datetime, none, none⟩,
        (compress zstd (rows.flatMap StoredKline.encode)).1⟩ := by
  cases rows with
  | nil => cases ok
  | cons hd rest =>
    rw [encodeKlines] at ok
    split at ok
    · cases ok
    rename_i snd
    obtain ⟨few, ord⟩ := not_or.mp snd
    obtain rfl := Except.ok.inj ok
    exact ⟨hd, rest, rfl, not_lt.mp few,
      (anyWindow_datetime_le _).mp (eq_false_of_ne_true ord), rfl⟩

theorem encodeKlines_eq_ok (zstd : Option Zstd) {rows : List StoredKline} (ne : rows ≠ [])
    (few : rows.length * klineBytes ≤ maxBlockBytes)
    (ord : rows.Pairwise fun left right => left.datetime < right.datetime) :
    ∃ enc, encodeKlines zstd rows = .ok enc := by
  cases rows with
  | nil => exact absurd rfl ne
  | cons hd rest =>
    rw [encodeKlines, if_neg]
    · exact ⟨_, rfl⟩
    · rw [(anyWindow_datetime_le _).mpr ord]
      rintro (large | absurd)
      · omega
      · cases absurd

theorem Lies.readKlines {id off : Nat} {enc : EncodedBlock} {zstd : Option Zstd}
    {rows : List StoredKline} (lies : Lies file index id enc off)
    (got : ∀ row ∈ rows, row.Stored) (ok : encodeKlines zstd rows = .ok enc) :
    readKlines zstd file index id = .ok rows := by
  obtain ⟨hd, rest, rfl, few, ord, rfl⟩ := encodeKlines_parts ok
  have size := StoredKline.length_flatMap_encode got
  have ne : (hd :: rest).flatMap StoredKline.encode ≠ [] := by
    intro emp
    rw [emp, length_nil, length_cons] at size
    unfold klineBytes at size
    omega
  have pld := lies.readBlock ne (by rw [size]; exact few) rfl rfl rfl size.symm rfl
  unfold HistoryContainer.readKlines
  rw [lies.named]
  dsimp only
  rw [if_neg (not_not.mpr rfl), pld, ok_bind, decodeKlinePayload_flatMap got, ok_bind, if_neg]
  rintro (other | other | other | other)
  · exact other rfl
  · exact other rfl
  · rw [getLast?_cons_getLastD] at other
    exact other rfl
  · rw [(anyWindow_datetime_le _).mpr ord] at other
    cases other

end HistoryContainer

end Tqsdk

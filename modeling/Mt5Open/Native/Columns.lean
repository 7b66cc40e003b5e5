import Mt5Open.Lib.Tape
import Mt5Open.Native.History

/-!
# Column groups, written and read back

`readColumnGroup_makeColumnGroup` says what a group of columns is read as: the
rows that the first column of each identifier gives, and a descriptor for each
column.  Compression is a parameter, and inflation takes it back.

A reader of the group stands on a tape of bytes, behind the group anything may
follow.
-/

namespace Mt5Open.Native.History

open Lib Tape

/-! ## What a group is read as -/

/-- The sum of the first `n` values, in signed 64-bit arithmetic. -/
def summed (words : List Bytes) (n : Nat) : Int :=
  ((words.take n).map LittleEndian.decodeInt).sum.bmod (2 ^ 64)

/-- Row `i`, from the first column of each identifier. -/
def rowOf (columns : List Column) (i : Nat) : Row where
  timeMs := (columns.lookup 1).map fun v => summed v.words (i + 1)
  bid := (columns.lookup 2).map fun v => F64.fromLe (v.words.getD i [])
  ask := (columns.lookup 4).map fun v => F64.fromLe (v.words.getD i [])
  last := (columns.lookup 8).map fun v => F64.fromLe (v.words.getD i [])
  volume := (columns.lookup 16).map fun v => LittleEndian.decode (v.words.getD i [])
  auxiliary64 := (columns.lookup 64).map fun v => LittleEndian.decode (v.words.getD i [])

section Group

variable (deflate : Bytes → Bool → Bytes) (raw : Bool) (word0 count : Nat)

/-- The descriptor of a column that stands behind the columns of `front`. -/
structure Describes (front : List Column) (column : Column) (d : Descriptor) : Prop where
  word0_eq : d.word0 = word0
  compressedSize_eq : d.compressedSize = (columnBlock deflate raw column).length
  inflateSize_eq : d.inflateSize = column.2.bytes.length % 2 ^ 32
  columnId_eq : d.columnId = column.1
  descriptorHex_eq : d.descriptorHex = hexEncode (columnHeader deflate raw word0 column)
  unknown : column.1 ∉ COLUMNS →
    d.encoded = columnBlock deflate raw column ∧ d.decoded = [] ∧ d.compression = "opaque"
  known : column.1 ∈ COLUMNS → d.decoded = column.2.bytes ∧ d.encoded = []
  projected : d.projected = true ↔ column.1 ∈ COLUMNS ∧ front.lookup column.1 = none
  unusedTail : d.unusedTail = if d.projected then column.2.bytes.drop (count * 8) else []

/-! ## Headers -/

/-- The reader stands inside of the tape, with a suffix behind the tape. -/
def ByteReader.Stands (suffix : Bytes) (r : ByteReader) (past rest : Bytes) : Prop :=
  r.data = past ++ rest ++ suffix ∧ r.position = past.length ∧ (past ++ rest).length < 2 ^ 64

variable {deflate raw word0 count} {suffix : Bytes}

theorem spells_take {size : Nat} (past : Bytes) (r : Record size) :
    Spells (ByteReader.Stands suffix) (ByteReader.take size) past r.bytes r := by
  obtain ⟨bytes, rfl⟩ := r
  rintro ⟨data, position⟩ rest ⟨hdata, rfl, hlength⟩
  simp only at hdata
  subst hdata
  have hslice : slice (past ++ (bytes ++ rest) ++ suffix) past.length bytes.length = bytes := by
    unfold slice
    rw [List.append_assoc, List.drop_left, List.append_assoc, List.take_left]
  simp only [List.length_append] at hlength
  refine ⟨⟨past ++ (bytes ++ rest) ++ suffix, past.length + bytes.length⟩, ?_, ?_, ?_, ?_⟩
  · unfold ByteReader.take
    dsimp only
    rw [if_neg (by omega), dif_pos (by simp only [List.length_append]; omega)]
    simp only [hslice]
  · simp only [List.append_assoc]
  · rw [List.length_append]
  · simp only [List.length_append]
    omega

/-- A part of a byte string that starts and ends with other parts. -/
theorem slice_middle {front bytes back : Bytes} {start size : Nat} (hstart : front.length = start)
    (hsize : bytes.length = size) : slice (front ++ (bytes ++ back)) start size = bytes := by
  rw [slice, List.drop_left' hstart, List.take_left' hsize]

variable (deflate raw word0 count)

def groupRecord (columns : List Column) : Record 52 where
  bytes := groupHeader deflate columns count raw
  length_bytes := by simp [groupHeader]

def columnRecord (column : Column) : Record 36 where
  bytes := columnHeader deflate raw word0 column
  length_bytes := by simp [columnHeader]

/-- The descriptor of a column before its block. -/
def headed (column : Column) : Descriptor where
  word0 := word0
  compressedSize := (columnBlock deflate raw column).length
  inflateSize := column.2.bytes.length % 2 ^ 32
  columnId := column.1
  descriptorHex := hexEncode (columnHeader deflate raw word0 column)

variable {deflate raw word0 count}

theorem groupRecord_limit {columns : List Column}
    (h : (columns.map fun c => (columnBlock deflate raw c).length).sum < 2 ^ 32) :
    u32At (groupRecord deflate raw count columns) 4 =
      (columns.map fun c => (columnBlock deflate raw c).length).sum := by
  have hfield : slice (groupHeader deflate columns count raw) 4 4 =
      LittleEndian.encode 4 (columns.map fun c => (columnBlock deflate raw c).length).sum := by
    simp only [groupHeader, List.append_assoc]
    exact slice_middle rfl (LittleEndian.length_encode _ _)
  show LittleEndian.decode (slice (groupHeader deflate columns count raw) 4 4) = _
  rw [hfield, LittleEndian.decode_encode_of_lt h]

theorem groupRecord_count (columns : List Column) (h : count < 2 ^ 32) :
    u32At (groupRecord deflate raw count columns) 8 = count := by
  have hfield : slice (groupHeader deflate columns count raw) 8 4 =
      LittleEndian.encode 4 count := by
    simp only [groupHeader, List.append_assoc]
    rw [← List.append_assoc]
    exact slice_middle (by simp) (LittleEndian.length_encode _ _)
  show LittleEndian.decode (slice (groupHeader deflate columns count raw) 8 4) = _
  rw [hfield, LittleEndian.decode_encode_of_lt h]

theorem groupRecord_columns {columns : List Column} (h : columns.length ≤ 4096) :
    (groupRecord deflate raw count columns).i32 48 = columns.length := by
  have hfield : slice (groupHeader deflate columns count raw) 48 4 =
      LittleEndian.encodeInt 4 columns.length := by
    rw [groupHeader, ← List.append_nil (LittleEndian.encodeInt 4 columns.length)]
    exact slice_middle (by simp) (LittleEndian.length_encodeInt _ _)
  show LittleEndian.decodeInt (slice (groupHeader deflate columns count raw) 48 4) = _
  rw [hfield, LittleEndian.decodeInt_encodeInt (by omega) (by omega)]

theorem descriptor_columnRecord {column : Column} (hword0 : word0 < 2 ^ 32)
    (hblock : (columnBlock deflate raw column).length < 2 ^ 32)
    (hid : -2 ^ 31 ≤ column.1 ∧ column.1 < 2 ^ 31) :
    descriptor (columnRecord deflate raw word0 column) = headed deflate raw word0 column := by
  have hfirst : slice (columnHeader deflate raw word0 column) 0 4 =
      LittleEndian.encode 4 word0 := by
    simp only [columnHeader, List.append_assoc]
    exact List.take_left' (LittleEndian.length_encode _ _)
  have hsecond : slice (columnHeader deflate raw word0 column) 4 4 =
      LittleEndian.encode 4 (columnBlock deflate raw column).length := by
    simp only [columnHeader, List.append_assoc]
    exact slice_middle (LittleEndian.length_encode _ _) (LittleEndian.length_encode _ _)
  have hthird : slice (columnHeader deflate raw word0 column) 8 4 =
      LittleEndian.encode 4 column.2.bytes.length := by
    simp only [columnHeader, List.append_assoc]
    rw [← List.append_assoc]
    exact slice_middle (by simp) (LittleEndian.length_encode _ _)
  have hfourth : slice (columnHeader deflate raw word0 column) 12 4 =
      LittleEndian.encodeInt 4 column.1 := by
    rw [columnHeader, List.append_assoc]
    exact slice_middle (by simp) (LittleEndian.length_encodeInt _ _)
  show Descriptor.mk (LittleEndian.decode (slice (columnHeader deflate raw word0 column) 0 4))
    (LittleEndian.decode (slice (columnHeader deflate raw word0 column) 4 4))
    (LittleEndian.decode (slice (columnHeader deflate raw word0 column) 8 4))
    (LittleEndian.decodeInt (slice (columnHeader deflate raw word0 column) 12 4)) _ _ _ _ _ _ = _
  rw [hfirst, hsecond, hthird, hfourth, LittleEndian.decode_encode_of_lt hword0,
    LittleEndian.decode_encode_of_lt hblock, LittleEndian.decode_encode,
    LittleEndian.decodeInt_encodeInt (by omega) (by omega)]
  rfl

/-! ## Blocks -/

/-- A descriptor behind its block. -/
def Blocked (deflate : Bytes → Bool → Bytes) (raw : Bool) (word0 : Nat) (column : Column)
    (d : Descriptor) : Prop :=
  if column.1 ∈ COLUMNS then
    ∃ fmt, d = { headed deflate raw word0 column with
      decoded := column.2.bytes, compression := fmt }
  else
    d = { headed deflate raw word0 column with
      encoded := columnBlock deflate raw column
      compression := "opaque" }

/-- Inflation takes compression back. -/
def Inflates (flate2 : Flate2) (deflate : Bytes → Bool → Bytes) : Prop :=
  ∀ b raw limit, b.length ≤ limit → ∃ fmt, inflateInner flate2 (deflate b raw) limit = .ok (b, fmt)

/-- How many bytes the known columns hold. -/
def knownBytes (columns : List Column) : Nat :=
  ((columns.filter (·.1 ∈ COLUMNS)).map fun c => c.2.bytes.length).sum

theorem spells_readBlocks {flate2 : Flate2} (hinflate : Inflates flate2 deflate)
    {limit maxBytes : Nat} (columns : List Column) (past : Bytes) {compressed inflated : Nat}
    (hlimit : compressed + (columns.map fun c => (columnBlock deflate raw c).length).sum ≤ limit)
    (hbytes : inflated + knownBytes columns ≤ maxBytes) :
    ∃ ds, List.Forall₂ (Blocked deflate raw word0) columns ds ∧
      Spells (ByteReader.Stands suffix)
        (readBlocks flate2 limit maxBytes compressed inflated
          (columns.map (headed deflate raw word0)))
        past (columns.flatMap (columnBlock deflate raw))
        (ds, compressed + (columns.map fun c => (columnBlock deflate raw c).length).sum) := by
  induction columns generalizing past compressed inflated with
  | nil => exact ⟨[], .nil, .pure past _⟩
  | cons column columns ih =>
    have hblock : Spells (ByteReader.Stands suffix)
        (ByteReader.take (columnBlock deflate raw column).length) past
        (columnBlock deflate raw column) ⟨columnBlock deflate raw column, rfl⟩ :=
      spells_take past (⟨columnBlock deflate raw column, rfl⟩ : Record _)
    rw [List.map_cons, List.sum_cons] at hlimit
    have hfits : ¬limit < compressed + (headed deflate raw word0 column).compressedSize := by
      show ¬limit < compressed + (columnBlock deflate raw column).length
      omega
    rw [List.map_cons, readBlocks, List.map_cons, List.sum_cons, ← Nat.add_assoc,
      List.flatMap_cons, if_neg hfits]
    by_cases hknown : column.1 ∈ COLUMNS
    · have hsplit : knownBytes (column :: columns) =
          column.2.bytes.length + knownBytes columns := by
        simp [knownBytes, hknown]
      have hid : ¬(headed deflate raw word0 column).columnId ∉ COLUMNS := not_not_intro hknown
      obtain ⟨fmt, hfmt⟩ := hinflate column.2.bytes raw (maxBytes - inflated) (by omega)
      obtain ⟨ds, hds, hspells⟩ := ih (past ++ columnBlock deflate raw column)
        (by omega : compressed + (columnBlock deflate raw column).length + _ ≤ limit)
        (by omega : inflated + column.2.bytes.length + _ ≤ maxBytes)
      refine ⟨_ :: ds, .cons ((if_pos hknown).mpr ⟨fmt, rfl⟩) hds, hblock.bind ?_⟩
      rw [if_neg hid]
      exact (Spells.ofResult _ hfmt).nil_bind (hspells.map _)
    · have hsplit : knownBytes (column :: columns) = knownBytes columns := by
        simp [knownBytes, hknown]
      have hid : (headed deflate raw word0 column).columnId ∉ COLUMNS := hknown
      obtain ⟨ds, hds, hspells⟩ := ih (past ++ columnBlock deflate raw column)
        (by omega : compressed + (columnBlock deflate raw column).length + _ ≤ limit)
        (by omega : inflated + _ ≤ maxBytes)
      refine ⟨_ :: ds, .cons ((if_neg hknown).mpr rfl) hds, hblock.bind ?_⟩
      rw [if_pos hid]
      exact hspells.map _

/-! ## Projection -/

theorem length_of_mem_words (values : ColumnValues) : ∀ w ∈ values.words, w.length = 8 := by
  intro w hw
  cases values with
  | f64 values =>
    obtain ⟨x, -, rfl⟩ := List.mem_map.mp hw
    exact LittleEndian.length_encode _ _
  | i64 values =>
    obtain ⟨x, -, rfl⟩ := List.mem_map.mp hw
    exact LittleEndian.length_encodeInt _ _
  | u64 values =>
    obtain ⟨x, -, rfl⟩ := List.mem_map.mp hw
    exact LittleEndian.length_encode _ _

theorem length_flatten_words {words : List Bytes} (h : ∀ w ∈ words, w.length = 8) :
    words.flatten.length = words.length * 8 := by
  induction words with
  | nil => rfl
  | cons w words ih =>
    have hw := h w List.mem_cons_self
    have hrest := ih fun v hv => h v (List.mem_cons_of_mem _ hv)
    rw [List.flatten_cons, List.length_append, List.length_cons]
    omega

/-- The value at an index stands at its bytes. -/
theorem slice_words {words : List Bytes} (h : ∀ w ∈ words, w.length = 8) {i : Nat}
    (hi : i < words.length) : slice words.flatten (i * 8) 8 = words.getD i [] := by
  have hfront : (words.take i).flatten.length = i * 8 := by
    rw [length_flatten_words fun w hw => h w (List.mem_of_mem_take hw),
      List.length_take_of_le (Nat.le_of_lt hi)]
  rw [List.getD_eq_getElem?_getD, List.getElem?_eq_getElem hi, Option.getD_some]
  exact slice_flatten (List.getElem?_eq_getElem hi) hfront (h _ (List.getElem_mem hi))

theorem wrapI64_eq_bmod (x : Int) : wrapI64 x = x.bmod (2 ^ 64) := by
  rw [wrapI64, Int.bmod_def]
  split <;> omega

theorem summed_succ {words : List Bytes} {i : Nat} (hi : i < words.length) :
    wrapI64 (summed words i + LittleEndian.decodeInt (words.getD i [])) = summed words (i + 1) := by
  rw [wrapI64_eq_bmod, summed, Int.bmod_add_bmod, summed, List.take_succ_eq_append_getElem hi,
    List.map_append, List.sum_append, List.getD_eq_getElem?_getD, List.getElem?_eq_getElem hi]
  simp

theorem lookup_append_singleton (front : List Column) (column : Column) (id : Int) :
    (front ++ [column]).lookup id =
      (front.lookup id).or (if id = column.1 then some column.2 else none) := by
  obtain ⟨first, values⟩ := column
  rw [List.lookup_append]
  by_cases hid : id = first
  · simp [hid]
  · simp [hid, List.lookup_cons, beq_false_of_ne hid]

/-- One value goes to the field of its column. -/
theorem setColumn_rowOf {front : List Column} {column : Column} (hknown : column.1 ∈ COLUMNS)
    (hfirst : front.lookup column.1 = none) {i : Nat} (hi : i < column.2.words.length)
    {previous : Int} (hprevious : column.1 = 1 → previous = summed column.2.words i) :
    ∃ next, (rowOf front i).setColumn column.1 (column.2.words.getD i []) previous =
      .ok (rowOf (front ++ [column]) i, next) ∧
        (column.1 = 1 → next = summed column.2.words (i + 1)) := by
  have hlookup := lookup_append_singleton front column
  obtain ⟨id, values⟩ := column
  simp only [COLUMNS, List.mem_cons, List.not_mem_nil, or_false] at hknown
  rcases hknown with rfl | rfl | rfl | rfl | rfl | rfl
  · refine ⟨_, ?_, fun _ => rfl⟩
    rw [hprevious rfl, Row.setColumn, summed_succ hi]
    simp [rowOf, hlookup, hfirst]
  all_goals
    refine ⟨previous, ?_, fun hid => absurd hid (by simp)⟩
    simp [Row.setColumn, rowOf, hlookup, hfirst]

/-- A column is projected onto rows in a row, from row `i` on. -/
theorem projectRows_rowOf {front : List Column} {column : Column} (hknown : column.1 ∈ COLUMNS)
    (hfirst : front.lookup column.1 = none) {i n : Nat} (hlong : i + n ≤ column.2.words.length)
    {previous : Int} (hprevious : column.1 = 1 → previous = summed column.2.words i) :
    projectRows column.1 column.2.bytes previous i ((List.range' i n).map (rowOf front)) =
      .ok ((List.range' i n).map (rowOf (front ++ [column]))) := by
  induction n generalizing i previous with
  | zero => rfl
  | succ n ih =>
    have hwords := length_of_mem_words column.2
    have hlength := length_flatten_words hwords
    have hi : i < column.2.words.length := by omega
    have hchunk : sliceAt column.2.bytes (i * 8) 8 = .ok (column.2.words.getD i []) := by
      rw [sliceAt, ColumnValues.bytes, if_pos (by omega), slice_words hwords hi]
    obtain ⟨next, hset, hnext⟩ := setColumn_rowOf hknown hfirst hi hprevious
    rw [List.range'_succ, List.map_cons, projectRows, hchunk]
    simp only [bind, Except.bind, hset]
    rw [ih (by omega) hnext]
    rfl

/-- A column that is unknown, or not the first one, changes no row. -/
theorem lookup_append_of_used {front : List Column} {column : Column}
    (h : column.1 ∈ COLUMNS → (front.lookup column.1).isSome) {id : Int} (hid : id ∈ COLUMNS) :
    (front ++ [column]).lookup id = front.lookup id := by
  rw [lookup_append_singleton]
  by_cases hsame : id = column.1
  · obtain ⟨values, hvalues⟩ := Option.isSome_iff_exists.mp (h (hsame ▸ hid))
    rw [hsame, hvalues]
    rfl
  · rw [if_neg hsame, Option.or_none]

theorem rowOf_append_of_used {front : List Column} {column : Column}
    (h : column.1 ∈ COLUMNS → (front.lookup column.1).isSome) :
    rowOf (front ++ [column]) = rowOf front := by
  funext i
  have hlookup {id : Int} (hid : id ∈ COLUMNS) := lookup_append_of_used h hid
  simp only [rowOf, hlookup (by decide : (1 : Int) ∈ COLUMNS),
    hlookup (by decide : (2 : Int) ∈ COLUMNS), hlookup (by decide : (4 : Int) ∈ COLUMNS),
    hlookup (by decide : (8 : Int) ∈ COLUMNS), hlookup (by decide : (16 : Int) ∈ COLUMNS),
    hlookup (by decide : (64 : Int) ∈ COLUMNS)]

theorem Blocked.columnId {column : Column} {d : Descriptor}
    (h : Blocked deflate raw word0 column d) : d.columnId = column.1 := by
  unfold Blocked at h
  split at h
  · obtain ⟨fmt, rfl⟩ := h
    rfl
  · rw [h]
    rfl

/-- A column that is not projected keeps its descriptor. -/
theorem describes_of_used {front : List Column} {column : Column} {d : Descriptor}
    (hblocked : Blocked deflate raw word0 column d)
    (h : column.1 ∈ COLUMNS → (front.lookup column.1).isSome) :
    Describes deflate raw word0 count front column d := by
  have hnot : ¬(column.1 ∈ COLUMNS ∧ front.lookup column.1 = none) := by
    rintro ⟨hknown, hnone⟩
    have hsome := h hknown
    rw [hnone] at hsome
    cases hsome
  unfold Blocked at hblocked
  split at hblocked
  · rename_i hknown
    obtain ⟨fmt, rfl⟩ := hblocked
    exact ⟨rfl, rfl, rfl, rfl, rfl, fun hunknown => absurd hknown hunknown, fun _ => ⟨rfl, rfl⟩,
      iff_of_false Bool.false_ne_true hnot, rfl⟩
  · rename_i hunknown
    subst hblocked
    exact ⟨rfl, rfl, rfl, rfl, rfl, fun _ => ⟨rfl, rfl, rfl⟩, fun hknown => absurd hknown hunknown,
      iff_of_false Bool.false_ne_true hnot, rfl⟩

/-- The descriptors of columns in a row, each behind the columns before it. -/
def AllDescribe (deflate : Bytes → Bool → Bytes) (raw : Bool) (word0 count : Nat)
    (front : List Column) (columns : List Column) (ds : List Descriptor) : Prop :=
  ds.length = columns.length ∧ ∀ i c d, columns[i]? = some c → ds[i]? = some d →
    Describes deflate raw word0 count (front ++ columns.take i) c d

theorem AllDescribe.cons {front columns : List Column} {column : Column} {d : Descriptor}
    {ds : List Descriptor} (hfirst : Describes deflate raw word0 count front column d)
    (hrest : AllDescribe deflate raw word0 count (front ++ [column]) columns ds) :
    AllDescribe deflate raw word0 count front (column :: columns) (d :: ds) := by
  refine ⟨congrArg (· + 1) hrest.1, ?_⟩
  intro i c e hc he
  cases i with
  | zero =>
    cases hc
    cases he
    rw [List.take_zero, List.append_nil]
    exact hfirst
  | succ i =>
    have := hrest.2 i c e hc he
    rwa [List.append_assoc] at this

theorem projectColumns_blocked {front columns : List Column} {ds : List Descriptor}
    {used : List Int} (hblocked : List.Forall₂ (Blocked deflate raw word0) columns ds)
    (hused : ∀ id ∈ COLUMNS, id ∈ used ↔ (front.lookup id).isSome)
    (hlong : ∀ id ∈ COLUMNS, ∀ v, (front ++ columns).lookup id = some v →
      count ≤ v.words.length) :
    ∃ ds', projectColumns count used ((List.range' 0 count).map (rowOf front)) ds =
      .ok ((List.range' 0 count).map (rowOf (front ++ columns)), ds') ∧
        AllDescribe deflate raw word0 count front columns ds' := by
  induction hblocked generalizing front used with
  | nil => exact ⟨[], by rw [List.append_nil]; rfl, rfl, fun _ _ _ h => by simp at h⟩
  | @cons column d columns ds hfirst _ ih =>
    have hid := hfirst.columnId
    rw [List.append_cons] at hlong ⊢
    rw [projectColumns, hid]
    by_cases hskip : column.1 ∈ used ∨ column.1 ∉ COLUMNS
    · have hsome : column.1 ∈ COLUMNS → (front.lookup column.1).isSome := fun hknown =>
        (hused column.1 hknown).mp (hskip.resolve_right (not_not_intro hknown))
      have hused' : ∀ id ∈ COLUMNS, id ∈ used ↔ ((front ++ [column]).lookup id).isSome := by
        intro id hknown
        rw [lookup_append_of_used hsome hknown]
        exact hused id hknown
      obtain ⟨ds', hrest, hdescribe⟩ := ih hused' hlong
      rw [rowOf_append_of_used hsome] at hrest
      rw [if_pos hskip, hrest]
      exact ⟨d :: ds', rfl, .cons (describes_of_used hfirst hsome) hdescribe⟩
    · obtain ⟨hunused, hknown⟩ := not_or.mp hskip
      rw [Decidable.not_not] at hknown
      have hnone : front.lookup column.1 = none := by
        rw [← Option.not_isSome_iff_eq_none, ← hused column.1 hknown]
        exact hunused
      have hself : (front ++ [column]).lookup column.1 = some column.2 := by
        rw [lookup_append_singleton, hnone, if_pos rfl]
        rfl
      have hcount : count ≤ column.2.words.length := by
        refine hlong column.1 hknown column.2 ?_
        rw [List.lookup_append, hself]
        rfl
      have hlength : column.2.bytes.length = column.2.words.length * 8 :=
        length_flatten_words (length_of_mem_words column.2)
      have hused' : ∀ id ∈ COLUMNS,
          id ∈ column.1 :: used ↔ ((front ++ [column]).lookup id).isSome := by
        intro id hid
        rw [List.mem_cons, lookup_append_singleton]
        by_cases hsame : id = column.1
        · simp [hsame, hnone]
        · simp [hsame, hused id hid]
      obtain ⟨ds', hrest, hdescribe⟩ := ih hused' hlong
      have hproject : projectRows column.1 column.2.bytes 0 0
          ((List.range' 0 count).map (rowOf front)) = .ok _ :=
        projectRows_rowOf hknown hnone (by omega) fun _ => rfl
      have hfirst' : ∃ fmt, d = { headed deflate raw word0 column with
          decoded := column.2.bytes, compression := fmt } := (if_pos hknown).mp hfirst
      obtain ⟨fmt, rfl⟩ := hfirst'
      rw [if_neg hskip, if_neg (by dsimp only; omega)]
      simp only [bind, Except.bind, hproject, tailAt]
      rw [if_pos (by omega)]
      simp only [hrest]
      refine ⟨_ :: ds', rfl, .cons ⟨rfl, rfl, rfl, rfl, rfl, fun hunknown => absurd hknown hunknown,
        fun _ => ⟨rfl, rfl⟩, iff_of_true rfl ⟨hknown, hnone⟩, rfl⟩ hdescribe⟩

/-! ## The group -/

/-- The compressed bytes of all blocks. -/
def blockBytes (deflate : Bytes → Bool → Bytes) (columns : List Column) (raw : Bool) : Nat :=
  (columns.map fun c => (columnBlock deflate raw c).length).sum

theorem length_makeColumnGroup (columns : List Column) :
    (makeColumnGroup deflate columns count raw word0).length =
      52 + 36 * columns.length + blockBytes deflate columns raw := by
  have hheader : (groupHeader deflate columns count raw).length = 52 :=
    (groupRecord deflate raw count columns).length_bytes
  have hheaders : (columns.flatMap (columnHeader deflate raw word0)).length =
      36 * columns.length := by
    have hone (c : Column) : (columnHeader deflate raw word0 c).length = 36 :=
      (columnRecord deflate raw word0 c).length_bytes
    simp [List.length_flatMap, hone, List.map_const', Nat.mul_comm]
  rw [makeColumnGroup, List.length_append, List.length_append, hheader, hheaders,
    List.length_flatMap, blockBytes]

theorem spells_readColumnGroup (suffix : Bytes) {flate2 : Flate2}
    (hinflate : Inflates flate2 deflate) {columns : List Column} (hcolumns : columns.length ≤ 4096)
    (hids : ∀ c ∈ columns, -2 ^ 31 ≤ c.1 ∧ c.1 < 2 ^ 31) (hcount : count ≤ MAX_TICKS)
    (hword0 : word0 < 2 ^ 32) (hblocks : blockBytes deflate columns raw < 2 ^ 32)
    (hbytes : knownBytes columns ≤ MAX_BYTES)
    (hlong : ∀ id ∈ COLUMNS, ∀ v, columns.lookup id = some v → count ≤ v.words.length) :
    ∃ group, Spells (ByteReader.Stands suffix) (readColumnGroup flate2) []
      (makeColumnGroup deflate columns count raw word0) group ∧ group.tickCount = count ∧
        group.rows = (List.range count).map (rowOf columns) ∧
        AllDescribe deflate raw word0 count [] columns group.descriptors := by
  have hheader : Spells (ByteReader.Stands suffix) (ByteReader.take 52) []
      (groupHeader deflate columns count raw) (groupRecord deflate raw count columns) :=
    spells_take [] (groupRecord deflate raw count columns)
  have hblock : ∀ c ∈ columns, (columnBlock deflate raw c).length < 2 ^ 32 := by
    intro c hc
    obtain ⟨front, back, hsplit⟩ := List.append_of_mem hc
    rw [blockBytes, hsplit, List.map_append, List.sum_append, List.map_cons,
      List.sum_cons] at hblocks
    omega
  have hdescriptors (past : Bytes) : Spells (ByteReader.Stands suffix)
      (Decoder.times (do return descriptor (← ByteReader.take 36)) columns.length) past
      (columns.flatMap (columnHeader deflate raw word0))
      (columns.map (headed deflate raw word0)) := by
    refine Spells.times_const past fun past c hc => ?_
    rw [← descriptor_columnRecord hword0 (hblock c hc) (hids c hc)]
    exact (spells_take past (columnRecord deflate raw word0 c)).map _
  obtain ⟨ds, hds, hread⟩ : ∃ ds, List.Forall₂ (Blocked deflate raw word0) columns ds ∧
      Spells (ByteReader.Stands suffix)
        (readBlocks flate2 (blockBytes deflate columns raw) MAX_BYTES 0 0
          (columns.map (headed deflate raw word0)))
        ([] ++ groupHeader deflate columns count raw ++
          columns.flatMap (columnHeader deflate raw word0))
        (columns.flatMap (columnBlock deflate raw)) (ds, 0 + blockBytes deflate columns raw) :=
    spells_readBlocks hinflate columns _ (Nat.le_of_eq (Nat.zero_add _)) (by rwa [Nat.zero_add])
  have hused : ∀ id ∈ COLUMNS, id ∈ ([] : List Int) ↔ (([] : List Column).lookup id).isSome :=
    fun _ _ => iff_of_false List.not_mem_nil Bool.false_ne_true
  obtain ⟨ds', hproject, hdescribe⟩ := projectColumns_blocked hds hused hlong
  have hempty : (List.range' 0 count).map (rowOf []) = List.replicate count {} := by
    refine List.eq_replicate_iff.mpr ⟨by simp, fun row hrow => ?_⟩
    obtain ⟨i, -, rfl⟩ := List.mem_map.mp hrow
    rfl
  rw [hempty] at hproject
  have hlimit : u32At (groupRecord deflate raw count columns) 4 = blockBytes deflate columns raw :=
    groupRecord_limit hblocks
  have hticks : u32At (groupRecord deflate raw count columns) 8 = count :=
    groupRecord_count columns (Nat.lt_of_le_of_lt hcount (by decide))
  have hnumber : (groupRecord deflate raw count columns).i32 48 = columns.length :=
    groupRecord_columns hcolumns
  refine ⟨{
    tickCount := count
    rows := (List.range count).map (rowOf columns)
    descriptors := ds'
    compressedBytes := 0 + blockBytes deflate columns raw
    compressedLimit := blockBytes deflate columns raw
    rawHeader := groupHeader deflate columns count raw }, ?_, rfl, rfl, hdescribe⟩
  unfold readColumnGroup readColumnGroupLimited
  rw [makeColumnGroup, List.append_assoc]
  refine hheader.bind ?_
  dsimp only
  rw [hlimit, hticks, hnumber, if_neg (by omega), Int.toNat_natCast]
  refine (hdescriptors _).bind (hread.bind_nil ?_)
  refine (Spells.ofResult _ hproject).nil_bind (.pure_of_eq _ ?_)
  rw [List.range_eq_range']
  rfl

/-- A group of columns is read back, whatever follows it. -/
theorem readColumnGroup_makeColumnGroup {flate2 : Flate2} (hinflate : Inflates flate2 deflate)
    (columns : List Column) (count : Nat) (raw : Bool) (word0 : Nat) (suffix : Bytes)
    (hcolumns : columns.length ≤ 4096) (hids : ∀ c ∈ columns, -2 ^ 31 ≤ c.1 ∧ c.1 < 2 ^ 31)
    (hcount : count ≤ 1000000) (hword0 : word0 < 2 ^ 32)
    (hblocks : blockBytes deflate columns raw < 2 ^ 32)
    (hbytes : knownBytes columns ≤ 16 * 1024 * 1024)
    (hlong : ∀ id ∈ COLUMNS, ∀ v ∈ columns.lookup id, count ≤ v.words.length) :
    let bytes := makeColumnGroup deflate columns count raw word0
    ∃ group, readColumnGroup flate2 (ByteReader.new (bytes ++ suffix)) =
        .ok (group, { data := bytes ++ suffix, position := bytes.length }) ∧
      group.tickCount = count ∧ group.rows = (List.range count).map (rowOf columns) ∧
        group.descriptors.length = columns.length ∧
        ∀ i c d, columns[i]? = some c → group.descriptors[i]? = some d →
          Describes deflate raw word0 count (columns.take i) c d := by
  intro bytes
  obtain ⟨group, hread, hticks, hrows, hlength, hdescribe⟩ :=
    spells_readColumnGroup suffix hinflate hcolumns hids hcount hword0 hblocks hbytes hlong
  have hsize : bytes.length = 52 + 36 * columns.length + blockBytes deflate columns raw :=
    length_makeColumnGroup columns
  obtain ⟨⟨data, position⟩, hrun, hdata, hposition, -⟩ :=
    hread (ByteReader.new (bytes ++ suffix)) []
      ⟨by rw [List.append_nil]; rfl, rfl, by
        rw [List.append_nil, List.nil_append]
        show bytes.length < 2 ^ 64
        omega⟩
  refine ⟨group, ?_, hticks, hrows, hlength, hdescribe⟩
  rw [hrun]
  simp only [List.nil_append, List.append_nil] at hdata hposition
  rw [hdata, hposition]

end Group

/-! ## A sample -/

/-- A raw DEFLATE stream of stored blocks: one for each byte, and an empty last one. -/
def stored : Bytes → Bytes
  | [] => [1, 0, 0, 255, 255]
  | b :: rest => 0 :: 1 :: 0 :: 254 :: 255 :: b :: stored rest

def unstored : Bytes → Option Bytes
  | 0 :: 1 :: 0 :: 254 :: 255 :: b :: rest => (unstored rest).map (b :: ·)
  | [1, 0, 0, 255, 255] => some []
  | _ => none

theorem unstored_stored (bytes : Bytes) : unstored (stored bytes) = some bytes := by
  induction bytes with
  | nil => rfl
  | cons b rest ih => rw [stored, unstored, ih]; rfl

/-- One call gives as much of the output as fits. -/
def emit (out input : Bytes) (consumed : Nat) (h : consumed ≤ input.length) (capacity : Nat) :
    Except String (Option Bytes × Decompressed input) :=
  .ok (some (out.drop capacity),
    { consumed
      written := out.take capacity
      streamEnd := out.length ≤ capacity
      consumed_le := h })

/-- A decompressor of stored blocks, which have no zlib header. -/
def storedFlate2 : Flate2 where
  Decompress := Bool × Option Bytes
  new header := (header, none)
  decompress
    | (true, _), _, _ => .error "corrupt deflate stream"
    | (false, none), input, capacity =>
      match unstored input with
      | none => .error "corrupt deflate stream"
      | some out =>
        (emit out input input.length (Nat.le_refl _) capacity).map fun r => ((false, r.1), r.2)
    | (false, some out), input, capacity =>
      (emit out input 0 (Nat.zero_le _) capacity).map fun r => ((false, r.1), r.2)

/-- The loop collects the output that is left. -/
theorem inflateLoop_emit {data : Bytes} {limit : Nat} (out : Bytes)
    (s : Inflating storedFlate2) (hposition : s.totalIn ≤ data.length)
    (hlimit : (s.out ++ out).length ≤ limit)
    (hcall : ∀ capacity, ∃ consumed h,
      storedFlate2.decompress s.decoder (data.drop s.totalIn) capacity =
        (emit out (data.drop s.totalIn) consumed h capacity).map (fun r => ((false, r.1), r.2)) ∧
      s.totalIn + consumed = data.length) :
    (inflateLoop storedFlate2 data limit).run s = .ok (s.out ++ out) := by
  induction hn : out.length using Nat.strong_induction_on generalizing out s with
  | _ n ih =>
    obtain ⟨consumed, hconsumed, hstep, htotal⟩ :=
      hcall (min INFLATE_BUFFER (limit - s.out.length + 1))
    have hcapacity : 0 < min INFLATE_BUFFER (limit - s.out.length + 1) :=
      Nat.lt_min.mpr ⟨by decide, Nat.succ_pos _⟩
    have hbuffer : min INFLATE_BUFFER (limit - s.out.length + 1) ≤ INFLATE_BUFFER :=
      Nat.min_le_left _ _
    rw [List.length_append] at hlimit
    by_cases hend : out.length ≤ min INFLATE_BUFFER (limit - s.out.length + 1)
    · -- The last call.
      refine Loop.run_of_stop _ ?_
      simp only [inflateLoop, hstep, emit, Except.map, List.take_of_length_le hend,
        List.length_append, htotal, hend, decide_true]
      rw [if_neg (by omega), if_neg (by omega), if_neg (by omega), if_pos trivial, if_pos trivial]
    · have hnext : (inflateLoop storedFlate2 data limit).body s = .inl
          { decoder := (false, some (out.drop (min INFLATE_BUFFER (limit - s.out.length + 1))))
            totalIn := data.length
            out := s.out ++ out.take (min INFLATE_BUFFER (limit - s.out.length + 1)) } := by
        simp only [inflateLoop, hstep, emit, Except.map, List.length_append, List.length_take,
          htotal, hend, decide_false]
        rw [if_neg (by omega), if_neg (by omega), if_neg (by omega), if_neg Bool.false_ne_true,
          if_neg (by omega)]
      generalize min INFLATE_BUFFER (limit - s.out.length + 1) = capacity at *
      rw [Loop.run_of_next _ hnext, ih (out.length - capacity) (by omega) (out.drop capacity) _
        (Nat.le_refl _) ?_ ?_ (List.length_drop ..)]
      · rw [List.append_assoc, List.take_append_drop]
      · simp only [List.length_append, List.length_take, List.length_drop]
        omega
      · intro capacity
        exact ⟨0, Nat.zero_le _, rfl, rfl⟩

theorem inflates_stored : Inflates storedFlate2 fun bytes _ => stored bytes := by
  intro bytes raw limit hlimit
  have hzlib : tryInflate storedFlate2 (stored bytes) limit true =
      refuse "corrupt deflate stream" := Loop.run_of_stop _ rfl
  have hraw : tryInflate storedFlate2 (stored bytes) limit false = .ok bytes := by
    refine inflateLoop_emit bytes _ (Nat.zero_le _) hlimit fun capacity => ?_
    refine ⟨(stored bytes).length, Nat.le_refl _, ?_, Nat.zero_add _⟩
    simp only [storedFlate2, List.drop_zero, unstored_stored]
  refine ⟨"raw_deflate", ?_⟩
  rw [inflateInner, hzlib]
  simp only [refuse, hraw]

/-- Four columns: times, prices, a second column of times, and an unknown one. -/
def sampleColumns : List Column :=
  [(1, .i64 [5, -2]), (2, .f64 [⟨0x3ff8000000000000⟩, .zero, .zero]), (1, .i64 [7]),
    (99, .u64 [17])]

theorem readColumnGroup_makeColumnGroup_sample :
    let bytes := makeColumnGroup (fun bytes _ => stored bytes) sampleColumns 2 true 3
    ∃ group, readColumnGroup storedFlate2 (ByteReader.new (bytes ++ [9])) =
        .ok (group, { data := bytes ++ [9], position := bytes.length }) ∧
      group.rows =
        [{ timeMs := some 5, bid := some ⟨0x3ff8000000000000⟩ },
          { timeMs := some 3, bid := some .zero }] ∧
      group.descriptors.length = 4 := by
  obtain ⟨group, hread, -, hrows, hlength, -⟩ :=
    readColumnGroup_makeColumnGroup inflates_stored sampleColumns 2 true 3 [9] (by decide)
      (by decide) (by decide) (by decide) (by decide +kernel) (by decide +kernel)
      (by decide +kernel)
  exact ⟨group, hread, hrows.trans (by decide +kernel), hlength⟩

end Mt5Open.Native.History

import Mt5Open.Native.Inflate
import Mt5Open.Native.Records

/-!
# Column groups

A group of history rows is stored by columns: a header, a descriptor for each
column, and then the compressed blocks.  A column is projected onto the rows by
its identifier, the first one of each identifier only.  Columns with an unknown
identifier are kept as they are.
-/

namespace Mt5Open.Native

open Lib

/-- `hexutil::encode`. -/
def hexEncode (bytes : Bytes) : String :=
  .ofList (bytes.flatMap fun b => [Nat.digitChar (b.toNat / 16), Nat.digitChar (b.toNat % 16)])

namespace History

def MAX_TICKS : Nat := 1000000
def MAX_BYTES : Nat := 16 * 1024 * 1024

/-- `wrap_i64`. -/
def wrapI64 (x : Int) : Int := (x + 2 ^ 63) % 2 ^ 64 - 2 ^ 63

/-! ## The reader -/

/-- A reader that keeps its position. -/
structure ByteReader where
  data : Bytes
  position : Nat
  deriving DecidableEq, Repr

/-- A decoder over the reader, which can panic. -/
abbrev Scan := Decoder Fault ByteReader

namespace ByteReader

/-- `ByteReader::new`. -/
def new (data : Bytes) : ByteReader := { data, position := 0 }

/-- `ByteReader::take`. -/
def take (size : Nat) : Scan (Record size) := fun r =>
  if 2 ^ 64 ≤ r.position + size then refuse "byte field size overflow"
  else if h : r.position + size ≤ r.data.length then
    .ok (⟨slice r.data r.position size, length_slice h⟩, { r with position := r.position + size })
  else refuse "truncated byte field"

end ByteReader

open ByteReader (take)

/-- `Err(ProtocolError::new(message))`. -/
def fail {α : Type} (message : String) : Scan α := Decoder.raise (.rejected ⟨message⟩)

/-- `u32_at`. -/
def u32At {size : Nat} (r : Record size) (offset : Nat) (h : offset + 4 ≤ size := by decide) :
    Nat :=
  LittleEndian.decode (r.field offset 4 h)

/-- `bytes[start..start + size]`, which panics out of range. -/
def sliceAt (bytes : Bytes) (start size : Nat) : Except Fault Bytes :=
  if start + size ≤ bytes.length then .ok (slice bytes start size) else .error .panicked

/-- `bytes[start..]`, which panics out of range. -/
def tailAt (bytes : Bytes) (start : Nat) : Except Fault Bytes :=
  if start ≤ bytes.length then .ok (bytes.drop start) else .error .panicked

/-! ## Groups -/

structure Descriptor where
  word0 : Nat
  compressedSize : Nat
  inflateSize : Nat
  columnId : Int
  descriptorHex : String
  decoded : Bytes := []
  /-- Unknown columns retain their original encoding. -/
  encoded : Bytes := []
  compression : String := ""
  /-- Whether this column was projected onto the rows. -/
  projected : Bool := false
  unusedTail : Bytes := []
  deriving DecidableEq, Repr

structure Row where
  timeMs : Option Int := none
  bid : Option F64 := none
  ask : Option F64 := none
  last : Option F64 := none
  volume : Option Int := none
  auxiliary64 : Option Int := none
  deriving DecidableEq, Repr

structure ColumnGroup where
  tickCount : Nat
  rows : List Row
  descriptors : List Descriptor
  compressedBytes : Nat
  compressedLimit : Nat
  rawHeader : Bytes
  deriving DecidableEq, Repr

/-- The identifiers of the columns that are projected. -/
def COLUMNS : List Int := [1, 2, 4, 8, 16, 64]

/-- A descriptor as it is read, before its block. -/
def descriptor (raw : Record 36) : Descriptor where
  word0 := u32At raw 0
  compressedSize := u32At raw 4
  inflateSize := u32At raw 8
  columnId := raw.i32 12
  descriptorHex := hexEncode raw.bytes

/-- The loop of `read_column_group_limited` over the blocks, with the compressed
and the inflated bytes so far.  It gives the compressed bytes of all blocks. -/
def readBlocks (flate2 : Flate2) (compressedLimit maxBytes : Nat) :
    Nat → Nat → List Descriptor → Scan (List Descriptor × Nat)
  | compressedSum, _, [] => return ([], compressedSum)
  | compressedSum, inflatedSum, d :: rest => do
    let compressedSum := compressedSum + d.compressedSize
    if compressedLimit < compressedSum then fail "compressed byte limit exceeded"
    else
      let compressed ← take d.compressedSize
      if d.columnId ∉ COLUMNS then
        let (rest, total) ←
          readBlocks flate2 compressedLimit maxBytes compressedSum inflatedSum rest
        return ({ d with encoded := compressed.bytes, compression := "opaque" } :: rest, total)
      else
        let (decoded, fmt) ←
          Decoder.ofResult (inflateInner flate2 compressed.bytes (maxBytes - inflatedSum))
        let (rest, total) ← readBlocks flate2 compressedLimit maxBytes compressedSum
          (inflatedSum + decoded.length) rest
        return ({ d with decoded, compression := fmt } :: rest, total)

/-- One value of a column in its row, with the time of the row before it. -/
def Row.setColumn (row : Row) (cid : Int) (chunk : Bytes) (previous : Int) :
    Except Fault (Row × Int) :=
  match cid with
  | 1 =>
    let cumulative := wrapI64 (previous + LittleEndian.decodeInt chunk)
    .ok ({ row with timeMs := some cumulative }, cumulative)
  | 2 => .ok ({ row with bid := some (F64.fromLe chunk) }, previous)
  | 4 => .ok ({ row with ask := some (F64.fromLe chunk) }, previous)
  | 8 => .ok ({ row with last := some (F64.fromLe chunk) }, previous)
  | 16 => .ok ({ row with volume := some (LittleEndian.decode chunk) }, previous)
  | 64 => .ok ({ row with auxiliary64 := some (LittleEndian.decode chunk) }, previous)
  | _ => .error .panicked

/-- The loop over the rows for one column, from row `i` on. -/
def projectRows (cid : Int) (buf : Bytes) : Int → Nat → List Row → Except Fault (List Row)
  | _, _, [] => .ok []
  | previous, i, row :: rows => do
    let chunk ← sliceAt buf (i * 8) 8
    let (row, previous) ← row.setColumn cid chunk previous
    let rows ← projectRows cid buf previous (i + 1) rows
    return row :: rows

/-- The loop of `read_column_group_limited` that projects the columns, with the
identifiers that are used already. -/
def projectColumns (tickCount : Nat) :
    List Int → List Row → List Descriptor → Except Fault (List Row × List Descriptor)
  | _, rows, [] => .ok (rows, [])
  | used, rows, d :: rest =>
    if d.columnId ∈ used ∨ d.columnId ∉ COLUMNS then do
      let (rows, rest) ← projectColumns tickCount used rows rest
      return (rows, d :: rest)
    else if d.decoded.length < tickCount * 8 then
      refuse "column shorter than eight bytes per tick"
    else do
      let rows ← projectRows d.columnId d.decoded 0 0 rows
      let unusedTail ← tailAt d.decoded (tickCount * 8)
      let (rows, rest) ← projectColumns tickCount (d.columnId :: used) rows rest
      return (rows, { d with projected := true, unusedTail } :: rest)

/-- `read_column_group_limited`. -/
def readColumnGroupLimited (flate2 : Flate2) (maxTicks maxBytes : Nat) : Scan ColumnGroup := do
  let rawHeader ← take 52
  let compressedLimit := u32At rawHeader 4
  let tickCount := u32At rawHeader 8
  let descriptorCount := rawHeader.i32 48
  if maxTicks < tickCount ∨ ¬(0 ≤ descriptorCount ∧ descriptorCount ≤ 4096) then
    fail "group count exceeds configured limit"
  else
    let descriptors ← Decoder.times (do return descriptor (← take 36)) descriptorCount.toNat
    let (descriptors, compressedBytes) ←
      readBlocks flate2 compressedLimit maxBytes 0 0 descriptors
    let (rows, descriptors) ←
      Decoder.ofResult (projectColumns tickCount [] (List.replicate tickCount {}) descriptors)
    return {
      tickCount
      rows
      descriptors
      compressedBytes
      compressedLimit
      rawHeader := rawHeader.bytes }

/-- `read_column_group`. -/
def readColumnGroup (flate2 : Flate2) : Scan ColumnGroup :=
  readColumnGroupLimited flate2 MAX_TICKS MAX_BYTES

/-! ## Bounds -/

/-- The decoded bytes of the columns of a group. -/
def decodedBytes (ds : List Descriptor) : Nat := (ds.map (·.decoded.length)).sum

/-- The reader has gone forwards in the same bytes, and not beyond their end. -/
def ByteReader.Ahead (r t : ByteReader) : Prop :=
  t.data = r.data ∧ r.position ≤ t.position ∧
    (r.position ≤ r.data.length → t.position ≤ r.data.length)

theorem ByteReader.Ahead.refl (r : ByteReader) : r.Ahead r := ⟨rfl, Nat.le_refl _, id⟩

theorem ByteReader.Ahead.trans {r t u : ByteReader} (h : r.Ahead t) (h' : t.Ahead u) :
    r.Ahead u := by
  obtain ⟨hdata, hposition, hend⟩ := h
  obtain ⟨hdata', hposition', hend'⟩ := h'
  rw [hdata] at hend' hdata'
  exact ⟨hdata', Nat.le_trans hposition hposition', fun hr => hend' (hend hr)⟩

/-- Reading goes forwards and does not panic, and the answer has `Q`. -/
def Safe {α : Type} (x : Scan α) (Q : α → Prop) : Prop :=
  ∀ r, x.Yields r (fun a t => r.Ahead t ∧ Q a) Fault.Orderly

namespace Safe

variable {α β : Type} {x : Scan α} {f : α → Scan β} {P Q : α → Prop} {R : β → Prop}

theorem pure {a : α} (h : Q a) : Safe (pure a) Q := fun r => .pure ⟨.refl r, h⟩

theorem fail (message : String) : Safe (fail message : Scan α) Q := fun _ => .raise nofun

theorem ofResult {r : Except Fault α} (h : Sound r Q) : Safe (Decoder.ofResult r) Q :=
  fun t => .ofResult (fun _ ha => ⟨.refl t, h.of_ok ha⟩) fun _ he => h.of_error he

theorem bind (hx : Safe x P) (hf : ∀ a, P a → Safe (f a) R) : Safe (x >>= f) R := fun r =>
  (hx r).bind fun a t ⟨hahead, hP⟩ =>
    (hf a hP t).mono fun _ _ ⟨hrest, hR⟩ => ⟨hahead.trans hrest, hR⟩

theorem times (hx : Safe x Q) (n : Nat) : Safe (Decoder.times x n) fun as => ∀ a ∈ as, Q a := by
  induction n with
  | zero => exact pure fun _ h => absurd h List.not_mem_nil
  | succ n ih =>
    refine hx.bind fun a ha => ih.bind fun as has => pure fun b hb => ?_
    rcases List.mem_cons.mp hb with rfl | hmem
    · exact ha
    · exact has b hmem

end Safe

theorem take_yields (size : Nat) (r : ByteReader) :
    (take size).Yields r (fun a t => a.bytes = slice r.data r.position size ∧
      t = { r with position := r.position + size } ∧ r.position + size ≤ r.data.length)
      Fault.Orderly := by
  by_cases hover : 2 ^ 64 ≤ r.position + size
  · have hrun : take size r = refuse "byte field size overflow" := if_pos hover
    rw [Decoder.Yields, hrun]
    intro h
    cases h
  · by_cases hend : r.position + size ≤ r.data.length
    · have hrun : take size r = .ok (_, _) := (if_neg hover).trans (dif_pos hend)
      rw [Decoder.Yields, hrun]
      exact ⟨rfl, rfl, hend⟩
    · have hrun : take size r = refuse "truncated byte field" :=
        (if_neg hover).trans (dif_neg hend)
      rw [Decoder.Yields, hrun]
      intro h
      cases h

theorem safe_take (size : Nat) : Safe (take size) fun _ => True := fun r =>
  (take_yields size r).mono fun _ t ⟨_, ht, hend⟩ => by
    subst ht
    exact ⟨⟨rfl, Nat.le_add_right _ _, fun _ => hend⟩, trivial⟩

/-- The blocks stay in the budget, whatever the descriptors say. -/
theorem safe_readBlocks {flate2 : Flate2} (hwrites : flate2.WritesWithin) {limit maxBytes : Nat}
    {ds : List Descriptor} (hds : ∀ d ∈ ds, d.decoded = []) (compressed : Nat) {inflated : Nat}
    (hinflated : inflated ≤ maxBytes) :
    Safe (readBlocks flate2 limit maxBytes compressed inflated ds) fun p =>
      inflated + decodedBytes p.1 ≤ maxBytes := by
  induction ds generalizing compressed inflated with
  | nil => exact .pure hinflated
  | cons d ds ih =>
    have hrest : ∀ e ∈ ds, e.decoded = [] := fun e he => hds e (List.mem_cons_of_mem _ he)
    rw [readBlocks]
    by_cases hlimit : limit < compressed + d.compressedSize
    · rw [if_pos hlimit]
      exact .fail _
    · rw [if_neg hlimit]
      refine (safe_take _).bind fun block _ => ?_
      by_cases hknown : d.columnId ∉ COLUMNS
      · rw [if_pos hknown]
        refine (ih hrest _ hinflated).bind fun p hp => .pure ?_
        have hempty := hds d List.mem_cons_self
        show inflated + (d.decoded.length + decodedBytes p.1) ≤ maxBytes
        rw [hempty, List.length_nil, Nat.zero_add]
        exact hp
      · rw [if_neg hknown]
        refine (Safe.ofResult (inflateInner_within hwrites _ _)).bind fun p hp => ?_
        have hbudget : inflated + p.1.length ≤ maxBytes := by omega
        refine (ih hrest _ hbudget).bind fun q hq => .pure ?_
        show inflated + (p.1.length + decodedBytes q.1) ≤ maxBytes
        omega

theorem setColumn_ok (row : Row) {cid : Int} (hknown : cid ∈ COLUMNS) (chunk : Bytes)
    (previous : Int) : ∃ p, row.setColumn cid chunk previous = .ok p := by
  simp only [COLUMNS, List.mem_cons, List.not_mem_nil, or_false] at hknown
  rcases hknown with rfl | rfl | rfl | rfl | rfl | rfl <;> exact ⟨_, rfl⟩

/-- Every slice of the projection is in range. -/
theorem projectRows_ok {cid : Int} (hknown : cid ∈ COLUMNS) (buf : Bytes) (previous : Int)
    {i : Nat} {rows : List Row} (hlong : (i + rows.length) * 8 ≤ buf.length) :
    ∃ projected, projectRows cid buf previous i rows = .ok projected ∧
      projected.length = rows.length := by
  induction rows generalizing previous i with
  | nil => exact ⟨[], rfl, rfl⟩
  | cons row rows ih =>
    rw [List.length_cons] at hlong
    have hchunk : sliceAt buf (i * 8) 8 = .ok (slice buf (i * 8) 8) := if_pos (by omega)
    obtain ⟨⟨next, time⟩, hset⟩ := setColumn_ok row hknown (slice buf (i * 8) 8) previous
    obtain ⟨projected, hrest, hlength⟩ := ih time (by omega : (i + 1 + rows.length) * 8 ≤ _)
    refine ⟨next :: projected, ?_, congrArg (· + 1) hlength⟩
    rw [projectRows, hchunk]
    simp only [bind, Except.bind, hset, hrest]
    rfl

theorem projectColumns_within {tickCount : Nat} (used : List Int) {rows : List Row}
    (hrows : rows.length = tickCount) (ds : List Descriptor) :
    Sound (projectColumns tickCount used rows ds) fun p =>
      p.1.length = tickCount ∧ decodedBytes p.2 = decodedBytes ds := by
  induction ds generalizing used rows with
  | nil => exact .ok ⟨hrows, rfl⟩
  | cons d ds ih =>
    rw [projectColumns]
    by_cases hskip : d.columnId ∈ used ∨ d.columnId ∉ COLUMNS
    · rw [if_pos hskip]
      refine (ih used hrows).bind fun p hp => .ok ⟨hp.1, ?_⟩
      exact congrArg (d.decoded.length + ·) hp.2
    · rw [if_neg hskip]
      have hknown : d.columnId ∈ COLUMNS := Decidable.not_not.mp (not_or.mp hskip).2
      by_cases hshort : d.decoded.length < tickCount * 8
      · rw [if_pos hshort]
        exact .refuse _
      · rw [if_neg hshort]
        obtain ⟨projected, hproject, hlength⟩ :=
          projectRows_ok hknown d.decoded 0 (by omega : (0 + rows.length) * 8 ≤ _)
        have htail : tailAt d.decoded (tickCount * 8) = .ok (d.decoded.drop (tickCount * 8)) :=
          if_pos (Nat.le_of_not_lt hshort)
        rw [hproject, htail]
        refine (ih (d.columnId :: used) (hlength.trans hrows)).bind fun p hp => .ok ⟨hp.1, ?_⟩
        exact congrArg (d.decoded.length + ·) hp.2

/-- A group stays in its limits: of ticks, and of decoded bytes, those of duplicate
columns and of unused tails among them. -/
theorem safe_readColumnGroupLimited {flate2 : Flate2} (hwrites : flate2.WritesWithin)
    (maxTicks maxBytes : Nat) :
    Safe (readColumnGroupLimited flate2 maxTicks maxBytes) fun group =>
      group.rows.length ≤ maxTicks ∧ decodedBytes group.descriptors ≤ maxBytes := by
  refine (safe_take 52).bind fun rawHeader _ => ?_
  dsimp only
  by_cases hcount : maxTicks < u32At rawHeader 8 ∨
      ¬(0 ≤ rawHeader.i32 48 ∧ rawHeader.i32 48 ≤ 4096)
  · rw [if_pos hcount]
    exact .fail _
  · rw [if_neg hcount]
    have hticks : u32At rawHeader 8 ≤ maxTicks := Nat.le_of_not_lt (not_or.mp hcount).1
    have hdescriptor : Safe (do return descriptor (← take 36)) fun d => d.decoded = [] :=
      (safe_take 36).bind fun _ _ => .pure rfl
    refine (hdescriptor.times _).bind fun ds hds => ?_
    refine (safe_readBlocks hwrites hds 0 (Nat.zero_le maxBytes)).bind fun p hp => ?_
    have hrows : (List.replicate (u32At rawHeader 8) ({} : Row)).length = u32At rawHeader 8 :=
      List.length_replicate
    refine (Safe.ofResult (projectColumns_within [] hrows p.1)).bind fun q hq => .pure ⟨?_, ?_⟩
    · rw [hq.1]
      exact hticks
    · rw [hq.2]
      omega

/-! ## Groups that are built -/

/-- Column values for `makeColumnGroup`. -/
inductive ColumnValues where
  | f64 (values : List F64)
  | i64 (values : List Int)
  | u64 (values : List Nat)
  deriving DecidableEq, Repr

namespace ColumnValues

/-- The eight bytes of each value. -/
def words : ColumnValues → List Bytes
  | f64 values => values.map fun x => LittleEndian.encode 8 x.bits
  | i64 values => values.map (LittleEndian.encodeInt 8)
  | u64 values => values.map (LittleEndian.encode 8)

def bytes (values : ColumnValues) : Bytes := values.words.flatten

end ColumnValues

abbrev Column := Int × ColumnValues

section Make

variable (deflate : Bytes → Bool → Bytes)

def columnBlock (raw : Bool) (column : Column) : Bytes := deflate column.2.bytes raw

def columnHeader (raw : Bool) (word0 : Nat) (column : Column) : Bytes :=
  LittleEndian.encode 4 word0 ++ LittleEndian.encode 4 (columnBlock deflate raw column).length ++
    LittleEndian.encode 4 column.2.bytes.length ++ LittleEndian.encodeInt 4 column.1 ++
      List.replicate 20 0

def groupHeader (columns : List Column) (count : Nat) (raw : Bool) : Bytes :=
  List.replicate 4 0 ++
    LittleEndian.encode 4 (columns.map fun c => (columnBlock deflate raw c).length).sum ++
      LittleEndian.encode 4 count ++ List.replicate 36 0 ++
        LittleEndian.encodeInt 4 columns.length

/-- `make_column_group`. -/
def makeColumnGroup (columns : List Column) (count : Nat) (raw : Bool) (word0 : Nat) : Bytes :=
  groupHeader deflate columns count raw ++ columns.flatMap (columnHeader deflate raw word0) ++
    columns.flatMap (columnBlock deflate raw)

end Make

end History

end Mt5Open.Native

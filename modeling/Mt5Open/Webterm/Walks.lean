import Mt5Open.Webterm.Parse

/-!
# The records of a reply

A reply has a count and that many records of one size, and more bytes may follow.  In the
reply to `CMD_POSITIONS` the positions are followed by the orders, with a count of their own.

`PositionAt`, `OrderAt` and `DealAt` say what a record holds, each field at its bytes.
`counted_take` and `orderRecords_take` say which records are read from a reply that is cut
anywhere: those that are wholly present.
-/

namespace Mt5Open.Webterm.Walks

open Lib Trade Parse

/-- A table of records behind their count. -/
def table (records : List Bytes) : Bytes :=
  LittleEndian.encode 4 records.length ++ records.flatten

/-- Records of one size, as many as their count can say. -/
structure IsTable (size : Nat) (records : List Bytes) : Prop where
  sizes : ∀ record ∈ records, record.length = size
  count : records.length < 2 ^ 32

/-! ## The fields of a record -/

/-- The unsigned number in these bytes of a record. -/
def word (record : Bytes) (offset size : Nat) : Nat :=
  LittleEndian.decode (slice record offset size)

/-- The signed number in these bytes of a record. -/
def int (record : Bytes) (offset size : Nat) : Int :=
  LittleEndian.decodeInt (slice record offset size)

/-- The text in 64 bytes of a record. -/
def text (record : Bytes) (offset : Nat) : String := fromUtf16Le (slice record offset 64)

/-- A position, by the bytes of its record. -/
structure PositionAt (record : Bytes) (p : Position) : Prop where
  ticket : p.ticket = int record 0 8
  time : p.time = word record 16 4
  symbol : p.symbol = text record 24
  side : p.side = word record 88 4
  price : p.price.bits = word record 92 8
  sl : p.sl.bits = word record 108 8
  tp : p.tp.bits = word record 116 8
  volume : p.volume = lotsOf (word record 124 8)
  profit : p.profit.bits = word record 132 8
  commission : p.commission.bits = word record 156 8
  swap : p.swap.bits = word record 164 8
  magic : p.magic = int record 172 8
  comment : p.comment = text record 188

/-- An order, by the bytes of its record.  The last three fields are not read. -/
structure OrderAt (record : Bytes) (o : Order) : Prop where
  ticket : o.ticket = int record 0 8
  symbol : o.symbol = text record 72
  kind : o.kind = word record 148 4
  volume : o.volume = lotsOf (word record 204 4)
  magic : o.magic = int record 224 8
  price : o.price.bits = word record 336 8
  sl : o.sl.bits = 0
  tp : o.tp.bits = 0
  time : o.time = 0

/-- A deal, by the bytes of its record. -/
structure DealAt (record : Bytes) (d : Deal) : Prop where
  ticket : d.ticket = int record 0 8
  order : d.order = int record 72 8
  time : d.time = int record 80 8
  symbol : d.symbol = text record 88
  kind : d.kind = word record 152 4
  entry : d.entry = word record 156 4
  price : d.price.bits = word record 160 8
  sl : d.sl.bits = word record 176 8
  tp : d.tp.bits = word record 184 8
  volume : d.volume = lotsOf (word record 192 8)
  profit : d.profit.bits = word record 200 8
  commission : d.commission.bits = word record 224 8
  swap : d.swap.bits = word record 232 8
  magic : d.magic = int record 240 8
  position : d.position = int record 248 8
  comment : d.comment = text record 256
  contractSize : d.contractSize.bits = word record 320 8
  -- a time of more than 63 bits wraps
  timeMs : d.timeMs = (int record 80 8 * 1000 + min (word record 340 4) 999).bmod (2 ^ 64)

section Fields

variable {record : Bytes} {offset : Nat}

theorem u32At_drop (h : offset + 4 ≤ record.length) :
    u32At (record.drop offset) = word record offset 4 := by
  rw [u32At, if_neg (by rw [List.length_drop]; omega)]
  rfl

theorem u64At_drop (h : offset + 8 ≤ record.length) :
    u64At (record.drop offset) = word record offset 8 := by
  rw [u64At, if_neg (by rw [List.length_drop]; omega)]
  rfl

theorem i64At_drop (h : offset + 8 ≤ record.length) :
    i64At (record.drop offset) = int record offset 8 := by
  rw [i64At, if_neg (by rw [List.length_drop]; omega)]
  rfl

theorem bits_f64At_drop (h : offset + 8 ≤ record.length) :
    (f64At (record.drop offset)).bits = word record offset 8 := by
  rw [f64At, if_neg (by rw [List.length_drop]; omega)]
  rfl

theorem asI64_u64At_drop (h : offset + 8 ≤ record.length) :
    asI64 (u64At (record.drop offset)) = int record offset 8 := by
  rw [u64At_drop h, int, LittleEndian.decodeInt, length_slice h]
  rfl

end Fields

theorem positionAt_parsePosition {record : Bytes} (h : record.length = 344) :
    PositionAt record (parsePosition record) where
  ticket := by
    show i64At (record.drop 0) = _
    exact i64At_drop (by omega)
  time := congrArg Nat.cast (u32At_drop (by omega))
  symbol := rfl
  side := u32At_drop (by omega)
  price := bits_f64At_drop (by omega)
  sl := bits_f64At_drop (by omega)
  tp := bits_f64At_drop (by omega)
  volume := congrArg lotsOf (u64At_drop (by omega))
  profit := bits_f64At_drop (by omega)
  commission := bits_f64At_drop (by omega)
  swap := bits_f64At_drop (by omega)
  magic := by rw [parsePosition, asI64_u64At_drop (by omega)]
  comment := rfl

theorem orderAt_parseOrder {record : Bytes} (h : record.length = 356) :
    OrderAt record (parseOrder record) where
  ticket := by
    show i64At (record.drop 0) = _
    exact i64At_drop (by omega)
  symbol := rfl
  kind := u32At_drop (by omega)
  volume := congrArg lotsOf (u32At_drop (by omega))
  magic := by rw [parseOrder, asI64_u64At_drop (by omega)]
  price := bits_f64At_drop (by omega)
  sl := rfl
  tp := rfl
  time := rfl

theorem dealAt_parseDeal {record : Bytes} (h : record.length = 356) :
    DealAt record (parseDeal record) where
  ticket := by
    show i64At (record.drop 0) = _
    exact i64At_drop (by omega)
  order := i64At_drop (by omega)
  time := i64At_drop (by omega)
  symbol := rfl
  kind := u32At_drop (by omega)
  entry := u32At_drop (by omega)
  price := bits_f64At_drop (by omega)
  sl := bits_f64At_drop (by omega)
  tp := bits_f64At_drop (by omega)
  volume := congrArg lotsOf (u64At_drop (by omega))
  profit := bits_f64At_drop (by omega)
  commission := bits_f64At_drop (by omega)
  swap := bits_f64At_drop (by omega)
  magic := i64At_drop (by omega)
  position := i64At_drop (by omega)
  comment := rfl
  contractSize := bits_f64At_drop (by omega)
  timeMs := by
    show (dealTime record).bmod (2 ^ 64) = _
    rw [dealTime, i64At_drop (by omega), u32At_drop (by omega)]

/-- What is read of records of one size, one result for each record in their order. -/
theorem forall₂_map {α : Type} {size : Nat} {at_ : Bytes → α → Prop} {parse : Bytes → α}
    (hparse : ∀ record, record.length = size → at_ record (parse record)) {records : List Bytes}
    (h : ∀ record ∈ records, record.length = size) :
    List.Forall₂ at_ records (records.map parse) := by
  rw [List.forall₂_map_right_iff, List.forall₂_same]
  exact fun record hrecord => hparse record (h record hrecord)

/-! ## The walks -/

theorem length_table {size : Nat} {records : List Bytes} (h : IsTable size records) :
    (table records).length = 4 + size * records.length := by
  have hflatten : ∀ l : List Bytes, (∀ record ∈ l, record.length = size) →
      l.flatten.length = size * l.length := by
    intro l hl
    induction l with
    | nil => rfl
    | cons record l ih =>
      rw [List.flatten_cons, List.length_append, List.length_cons, hl record List.mem_cons_self,
        ih fun other hother => hl other (List.mem_cons_of_mem _ hother), Nat.mul_succ]
      omega
  rw [table, List.length_append, LittleEndian.length_encode, hflatten records h.sizes]

/-- A count that is wholly present is read. -/
theorem u32At_take {size : Nat} {records : List Bytes} (h : IsTable size records) (rest : Bytes)
    {n : Nat} (hn : 4 ≤ n) : u32At ((table records ++ rest).take n) = records.length := by
  have hcount : ((table records ++ rest).take n).take 4 = LittleEndian.encode 4 records.length := by
    rw [List.take_take, Nat.min_eq_left hn, table, List.append_assoc,
      List.take_left' (LittleEndian.length_encode _ _)]
  have hlength : ¬((table records ++ rest).take n).length < 4 := by
    rw [List.length_take, List.length_append, length_table h]
    omega
  rw [u32At, if_neg hlength, hcount]
  exact LittleEndian.decode_encode_of_lt h.count

/-- The bytes behind a count that is wholly present. -/
theorem drop_take_table {records : List Bytes} (rest : Bytes) (n : Nat) :
    ((table records ++ rest).take n).drop 4 = (records.flatten ++ rest).take (n - 4) := by
  rw [List.drop_take, table, List.append_assoc, List.drop_left' (LittleEndian.length_encode _ _)]

/-- A walk with an offset is a walk over the rest of the body. -/
theorem recordsAt_eq_walk {size : Nat} (hsize : 0 < size) (body : Bytes) (count offset : Nat) :
    recordsAt size body count offset = Stride.walk size count (body.drop offset) := by
  induction count generalizing offset with
  | zero => rfl
  | succ count ih =>
    rw [recordsAt, Stride.walk, List.length_drop]
    by_cases hend : body.length < offset + size
    · rw [if_pos hend, if_pos (by omega)]
    · rw [if_neg hend, if_neg (by omega), ih, List.drop_drop]
      rfl

/-- The records behind a count. -/
def counted (size : Nat) (body : Bytes) : List Bytes :=
  if body.length < 4 then [] else Stride.walk size (u32At body) (body.drop 4)

/-- The records of a table that is cut at any byte. -/
theorem counted_take {size : Nat} (hsize : 0 < size) {records : List Bytes}
    (h : IsTable size records) (rest : Bytes) (n : Nat) :
    counted size ((table records ++ rest).take n) = records.take ((n - 4) / size) := by
  unfold counted
  by_cases hn : 4 ≤ n
  · have hlength : ¬((table records ++ rest).take n).length < 4 := by
      rw [List.length_take, List.length_append, length_table h]
      omega
    rw [if_neg hlength, u32At_take h rest hn, drop_take_table]
    exact Stride.walk_take hsize h.sizes rest (n - 4)
  · have hlength : ((table records ++ rest).take n).length < 4 := by
      rw [List.length_take]
      omega
    have hnone : n - 4 = 0 := by omega
    rw [if_pos hlength, hnone, Nat.zero_div, List.take_zero]

theorem positionRecords_eq (body : Bytes) : positionRecords body = counted posSize body := by
  unfold positionRecords counted
  rw [recordsAt_eq_walk (by decide)]

theorem dealRecords_eq (body : Bytes) : dealRecords body = counted DEAL_REC_SIZE body := by
  unfold dealRecords counted
  rw [Stride.take_chunksExact (by decide)]

/-- The orders stand behind the positions. -/
theorem orderRecords_eq (body : Bytes) (h : 4 ≤ body.length) :
    orderRecords body = counted ORDER_REC_SIZE (body.drop (4 + u32At body * posSize)) := by
  unfold orderRecords counted
  rw [if_neg (by omega), List.length_drop]
  by_cases hend : body.length < 4 + u32At body * posSize + 4
  · rw [if_pos hend, if_pos (by omega)]
  · rw [if_neg hend, if_neg (by omega), recordsAt_eq_walk (by decide), List.drop_drop]

/-- The orders of a reply that is cut at any byte. -/
theorem orderRecords_take {positions orders : List Bytes} (hpositions : IsTable posSize positions)
    (horders : IsTable ORDER_REC_SIZE orders) (rest : Bytes) (n : Nat) :
    orderRecords ((table positions ++ (table orders ++ rest)).take n) =
      orders.take ((n - (table positions).length - 4) / ORDER_REC_SIZE) := by
  have hlength := length_table hpositions
  by_cases hn : 4 ≤ n
  · have hbody : 4 ≤ ((table positions ++ (table orders ++ rest)).take n).length := by
      rw [List.length_take, List.length_append, hlength]
      omega
    have hoffset : 4 + positions.length * posSize = (table positions).length := by
      rw [hlength, Nat.mul_comm]
    rw [orderRecords_eq _ hbody, u32At_take hpositions _ hn, hoffset, List.drop_take,
      List.drop_left]
    exact counted_take (by decide) horders rest _
  · have hshort : ((table positions ++ (table orders ++ rest)).take n).length < 4 := by
      rw [List.length_take]
      omega
    have hnone : n - (table positions).length - 4 = 0 := by omega
    rw [orderRecords, if_pos hshort, hnone, Nat.zero_div, List.take_zero]

/-- A reply that is whole, with more bytes behind it. -/
theorem take_of_whole {size : Nat} (hsize : 0 < size) {records : List Bytes}
    (h : IsTable size records) {n : Nat} (hn : (table records).length ≤ n) :
    records.take ((n - 4) / size) = records := by
  rw [length_table h] at hn
  apply List.take_of_length_le
  apply (Nat.le_div_iff_mul_le hsize).mpr
  rw [Nat.mul_comm]
  omega

/-- Positions and orders, one behind the other, and deals, each with a count and with any bytes
behind them: every record gives one result, and each field of it is read from the bytes of that
record.  A reply that is cut gives the results of the records that are wholly present. -/
theorem records_walked {positions orders deals : List Bytes} (hpositions : IsTable 344 positions)
    (horders : IsTable 356 orders) (hdeals : IsTable 356 deals) (rest : Bytes) :
    (List.Forall₂ PositionAt positions
          (parsePositions (table positions ++ (table orders ++ rest))) ∧
        List.Forall₂ OrderAt orders (parseOrders (table positions ++ (table orders ++ rest))) ∧
        List.Forall₂ DealAt deals (parseDeals (table deals ++ rest))) ∧
      ∀ n,
        List.Forall₂ PositionAt (positions.take ((n - 4) / 344))
            (parsePositions ((table positions ++ (table orders ++ rest)).take n)) ∧
          List.Forall₂ OrderAt (orders.take ((n - (4 + 344 * positions.length) - 4) / 356))
            (parseOrders ((table positions ++ (table orders ++ rest)).take n)) ∧
          List.Forall₂ DealAt (deals.take ((n - 4) / 356))
            (parseDeals ((table deals ++ rest).take n)) := by
  have hcut : ∀ n, positionRecords ((table positions ++ (table orders ++ rest)).take n) =
        positions.take ((n - 4) / 344) ∧
      orderRecords ((table positions ++ (table orders ++ rest)).take n) =
        orders.take ((n - (4 + 344 * positions.length) - 4) / 356) ∧
      dealRecords ((table deals ++ rest).take n) = deals.take ((n - 4) / 356) := by
    intro n
    rw [positionRecords_eq, dealRecords_eq, orderRecords_take hpositions horders,
      length_table hpositions]
    exact ⟨counted_take (by decide) hpositions _ n, rfl, counted_take (by decide) hdeals rest n⟩
  refine ⟨?_, ?_⟩
  · obtain ⟨hfirst, hsecond, -⟩ := hcut (table positions ++ (table orders ++ rest)).length
    obtain ⟨-, -, hthird⟩ := hcut (table deals ++ rest).length
    rw [List.take_length, List.length_append] at hfirst hsecond
    rw [List.take_length, List.length_append] at hthird
    rw [length_table hpositions, Nat.add_sub_cancel_left, List.length_append] at hsecond
    unfold parsePositions parseOrders parseDeals
    rw [hfirst, hsecond, hthird, take_of_whole (by decide) hpositions (Nat.le_add_right _ _),
      take_of_whole (by decide) horders (Nat.le_add_right _ _),
      take_of_whole (by decide) hdeals (Nat.le_add_right _ _)]
    exact ⟨forall₂_map (fun _ => positionAt_parsePosition) hpositions.sizes,
      forall₂_map (fun _ => orderAt_parseOrder) horders.sizes,
      forall₂_map (fun _ => dealAt_parseDeal) hdeals.sizes⟩
  · intro n
    obtain ⟨hfirst, hsecond, hthird⟩ := hcut n
    unfold parsePositions parseOrders parseDeals
    rw [hfirst, hsecond, hthird]
    refine ⟨?_, ?_, ?_⟩
    · exact forall₂_map (fun _ => positionAt_parsePosition) fun record hrecord =>
        hpositions.sizes record (List.mem_of_mem_take hrecord)
    · exact forall₂_map (fun _ => orderAt_parseOrder) fun record hrecord =>
        horders.sizes record (List.mem_of_mem_take hrecord)
    · exact forall₂_map (fun _ => dealAt_parseDeal) fun record hrecord =>
        hdeals.sizes record (List.mem_of_mem_take hrecord)

/-- A deal whose values differ from field to field: bought at 1.5 with a stop at 1.25, a target at
1.75, a profit of 2, a commission of -0.5 and a swap of 0.25. -/
def sampleDeal (ticket : Nat) : Bytes :=
  LittleEndian.encode 8 ticket ++ List.replicate 64 0 ++ LittleEndian.encode 8 77 ++
    LittleEndian.encode 8 1700000000 ++ utf16Le "EURUSD" 64 ++ LittleEndian.encode 4 1 ++
    LittleEndian.encode 4 3 ++ LittleEndian.encode 8 0x3ff8000000000000 ++ List.replicate 8 0 ++
    LittleEndian.encode 8 0x3ff4000000000000 ++ LittleEndian.encode 8 0x3ffc000000000000 ++
    LittleEndian.encode 8 250000 ++ LittleEndian.encode 8 0x4000000000000000 ++
    List.replicate 16 0 ++ LittleEndian.encode 8 0xbfe0000000000000 ++
    LittleEndian.encode 8 0x3fd0000000000000 ++ LittleEndian.encode 8 424242 ++
    LittleEndian.encode 8 1002 ++ utf16Le "second" 64 ++ LittleEndian.encode 8 0x40f86a0000000000 ++
    List.replicate 12 0 ++ LittleEndian.encode 4 250 ++ List.replicate 12 0

/-- Two deals with 100 bytes behind them, of which the second is cut. -/
theorem records_walked_sample :
    ∃ d, parseDeals ((table [sampleDeal 1001, sampleDeal 2002] ++ List.replicate 100 0x5a).take
        500) = [d] ∧
      (d.ticket, d.order, d.position, d.magic) = (1001, 77, 1002, 424242) ∧
      (d.symbol, d.comment, d.kind, d.entry) = ("EURUSD", "second", 1, 3) ∧
      (d.price.bits, d.sl.bits, d.tp.bits) =
        (0x3ff8000000000000, 0x3ff4000000000000, 0x3ffc000000000000) ∧
      (d.profit.bits, d.commission.bits, d.swap.bits) =
        (0x4000000000000000, 0xbfe0000000000000, 0x3fd0000000000000) ∧
      (d.time, d.timeMs) = (1700000000, 1700000000250) := by
  have hnone : ∀ size, IsTable size [] := fun _ =>
    ⟨fun _ h => absurd h List.not_mem_nil, by decide⟩
  have hdeals : IsTable 356 [sampleDeal 1001, sampleDeal 2002] := by
    refine ⟨?_, by decide⟩
    intro record hrecord
    rcases List.mem_pair.mp hrecord with h | h
    · rw [h]
      decide +kernel
    · rw [h]
      decide +kernel
  have hread :=
    ((records_walked (hnone 344) (hnone 356) hdeals (List.replicate 100 0x5a)).2 500).2.2
  obtain ⟨d, rest, hd, hrest, hone⟩ := List.forall₂_cons_left_iff.mp hread
  rw [List.forall₂_nil_left_iff.mp hrest] at hone
  refine ⟨d, hone, ?_, ?_, ?_, ?_, ?_⟩
  · rw [hd.ticket, hd.order, hd.position, hd.magic]
    decide +kernel
  · rw [hd.symbol, hd.comment, hd.kind, hd.entry]
    decide +kernel
  · rw [hd.price, hd.sl, hd.tp]
    decide +kernel
  · rw [hd.profit, hd.commission, hd.swap]
    decide +kernel
  · rw [hd.time, hd.timeMs]
    decide +kernel

end Mt5Open.Webterm.Walks

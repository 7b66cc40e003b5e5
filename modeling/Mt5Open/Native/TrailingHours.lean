import Mt5Open.Lib.Keyed
import Mt5Open.Native.Columns
import Mt5Open.Native.Placement

/-!
# Trailing hours

A segment holds the column groups of single hours: a header, an index with one entry for
each hour of the day, and the groups of the hours that the index marks, without anything
between them.

`readTrailingHourSegment_make` is the round trip.  The hour of a group is not stored with
it, and the reader finds it by counting marks.
-/

namespace Mt5Open.Native.History

open Lib Decoder
open ByteReader (take)

structure TrailingHours where
  header : Bytes
  hours : List (Nat × ColumnGroup)
  indices : List Bytes
  skippedNonhourHeader : Bool
  deriving DecidableEq, Repr

/-- The loop of `read_trailing_hour_segment` over the index, from this hour on. -/
def readHours (flate2 : Flate2) : Nat → List (Record 16) → Scan (List (Nat × ColumnGroup))
  | _, [] => return []
  | index, raw :: rest => do
    if 0 < u32At raw 4 then
      let group ← readColumnGroup flate2
      let hours ← readHours flate2 (index + 1) rest
      return (index, group) :: hours
    else readHours flate2 (index + 1) rest

/-- `read_trailing_hour_segment`.  Without bit 1 of the header flags, no hour follows. -/
def readTrailingHourSegment (flate2 : Flate2) : Scan TrailingHours := do
  let header ← take 115
  let flags := LittleEndian.decode (header.field 93 2 (Nat.le_add_right _ 20))
  if flags &&& 2 = 0 then
    return { header := header.bytes, hours := [], indices := [], skippedNonhourHeader := true }
  else
    let indices ← Decoder.times (take 16) 24
    let hours ← readHours flate2 0 indices
    return {
      header := header.bytes
      hours
      indices := indices.map (·.bytes)
      skippedNonhourHeader := false }

/-- Bytes by hour. -/
abbrev HourMap := Keyed (Prod.fst : Nat × Bytes → Nat)

/-- The header of a segment that is built. -/
def segmentHeader : Bytes :=
  LittleEndian.encode 2 115 ++ List.replicate 91 0 ++ LittleEndian.encode 2 2 ++
    List.replicate 20 0

/-- The entry of an hour in the index. -/
def indexEntry (present : Bool) : Bytes :=
  LittleEndian.encode 4 0 ++ LittleEndian.encode 4 (if present then 1 else 0) ++
    LittleEndian.encode 4 0 ++ LittleEndian.encode 4 0

/-- `make_trailing_hour_segment`. -/
def makeTrailingHourSegment (groups : HourMap) : Result Bytes :=
  if groups.items.any fun item => decide (24 ≤ item.1) then reject "hour index outside 0..23"
  else
    .ok (segmentHeader ++
      ((List.range 24).flatMap fun i => indexEntry (groups.get? i).isSome) ++
        groups.items.flatMap Prod.snd)

/-! ## The round trip -/

/-- The bytes are those of this group, and of nothing else. -/
def GroupBytes (flate2 : Flate2) (body : Bytes) (group : ColumnGroup) : Prop :=
  readColumnGroup flate2 (.new body) = .ok (group, { data := body, position := body.length })

/-- The bytes of a map, and the groups that they are the bytes of. -/
def HourGroups (flate2 : Flate2) (items : List (Nat × Bytes)) (hours : List (Nat × ColumnGroup)) :
    Prop :=
  List.Forall₂ (fun item hour => hour.1 = item.1 ∧ GroupBytes flate2 item.2 hour.2) items hours

/-- The reader of `front ++ middle ++ back` at the beginning of the middle. -/
def between (front middle back : Bytes) : ByteReader where
  data := front ++ middle ++ back
  position := front.length

theorem length_between (front middle back : Bytes) :
    (between front middle back).data.length = front.length + middle.length + back.length := by
  simp only [between, List.length_append]

/-- What reads its own bytes reads them between others. -/
theorem run_between {α : Type} {x : Scan α} {front body rest back : Bytes} {a : α}
    (hx : Carries (fun _ => True) (ByteReader.Placed front (rest ++ back)) x)
    (hrun : x (.new body) = .ok (a, { data := body, position := body.length }))
    (hlength : (between front (body ++ rest) back).data.length < 2 ^ 64) :
    x (between front (body ++ rest) back) = .ok (a, between (front ++ body) rest back) := by
  have hdata : (between front (body ++ rest) back).data = front ++ body ++ (rest ++ back) := by
    simp only [between, List.append_assoc]
  obtain ⟨⟨data, position⟩, hrun', hdata', hposition, -⟩ :=
    (hx _ a _ hrun trivial).2 (between front (body ++ rest) back) ⟨hdata, rfl, hlength⟩
  rw [hrun']
  dsimp only at hdata' hposition
  rw [hdata', hposition]
  simp only [between, List.length_append, List.append_assoc]

theorem take_between {front bytes rest back : Bytes} {size : Nat} (hsize : bytes.length = size)
    (hlength : (between front (bytes ++ rest) back).data.length < 2 ^ 64) :
    take size (between front (bytes ++ rest) back) =
      .ok (⟨bytes, hsize⟩, between (front ++ bytes) rest back) := by
  subst hsize
  rw [length_between, List.length_append] at hlength
  refine run_between (ByteReader.Placed.carries_take _) ?_
    (by rw [length_between, List.length_append]; exact hlength)
  have hslice : slice bytes 0 bytes.length = bytes := List.take_length
  rw [take, if_neg (by simp only [ByteReader.new]; omega), dif_pos (by simp [ByteReader.new])]
  simp only [ByteReader.new, hslice, Nat.zero_add]

/-- The entries of an index. -/
theorem times_take_between {front back rest : Bytes} {size : Nat} {chunks : List Bytes}
    (hsize : ∀ chunk ∈ chunks, chunk.length = size)
    (hlength : (between front (chunks.flatten ++ rest) back).data.length < 2 ^ 64) :
    ∃ records : List (Record size), records.map (·.bytes) = chunks ∧
      Decoder.times (take size) chunks.length (between front (chunks.flatten ++ rest) back) =
        .ok (records, between (front ++ chunks.flatten) rest back) := by
  induction chunks generalizing front with
  | nil =>
    rw [List.flatten_nil, List.append_nil]
    exact ⟨[], rfl, rfl⟩
  | cons chunk chunks ih =>
    have hchunk := hsize chunk List.mem_cons_self
    rw [List.flatten_cons, List.append_assoc] at hlength ⊢
    have hnext : (between (front ++ chunk) (chunks.flatten ++ rest) back).data.length < 2 ^ 64 := by
      simp only [length_between, List.length_append] at hlength ⊢
      omega
    obtain ⟨records, hrecords, hrun⟩ := ih (fun c hc => hsize c (List.mem_cons_of_mem _ hc)) hnext
    refine ⟨⟨chunk, hchunk⟩ :: records, by rw [List.map_cons, hrecords], ?_⟩
    rw [List.length_cons, Decoder.times, bind_of_ok (take_between hchunk hlength), bind_of_ok hrun,
      List.append_assoc]
    rfl

/-- The hours behind this one, when the entries mark the hours of the map. -/
theorem readHours_between {flate2 : Flate2} {front back : Bytes} {index : Nat}
    {raws : List (Record 16)} {items : List (Nat × Bytes)} {hours : List (Nat × ColumnGroup)}
    (hsorted : items.Pairwise fun a b => a.1 < b.1)
    (hfrom : ∀ item ∈ items, index ≤ item.1 ∧ item.1 < index + raws.length)
    (hmarks : ∀ i, (hi : i < raws.length) →
      (0 < u32At raws[i] 4 ↔ ∃ item ∈ items, item.1 = index + i))
    (hgroups : HourGroups flate2 items hours)
    (hlength : (between front (items.flatMap Prod.snd) back).data.length < 2 ^ 64) :
    readHours flate2 index raws (between front (items.flatMap Prod.snd) back) =
      .ok (hours, between (front ++ items.flatMap Prod.snd) [] back) := by
  induction raws generalizing front index items hours with
  | nil =>
    have hempty : items = [] := by
      refine List.eq_nil_iff_forall_not_mem.mpr fun item hitem => ?_
      have hitem := hfrom item hitem
      rw [List.length_nil] at hitem
      omega
    subst hempty
    cases hgroups
    rw [List.flatMap_nil, List.append_nil]
    rfl
  | cons raw raws ih =>
    have hnext : ∀ i, (hi : i < raws.length) →
        (0 < u32At raws[i] 4 ↔ ∃ item ∈ items, item.1 = index + 1 + i) := fun i hi => by
      have hmark := hmarks (i + 1) (Nat.succ_lt_succ hi)
      rwa [List.getElem_cons_succ, Nat.add_comm i 1, ← Nat.add_assoc] at hmark
    have hmark : 0 < u32At raw 4 ↔ ∃ item ∈ items, item.1 = index := hmarks 0 (Nat.succ_pos _)
    rw [readHours]
    by_cases hpresent : 0 < u32At raw 4
    · -- the first item of the map is the one of this hour
      rw [if_pos hpresent]
      obtain ⟨item, hitem, rfl⟩ := hmark.mp hpresent
      cases hgroups with
      | nil => exact absurd hitem List.not_mem_nil
      | @cons first hour items hours hfirst hgroups =>
        obtain ⟨hbefore, hlater⟩ := List.pairwise_cons.mp hsorted
        have hfirstfrom := hfrom first List.mem_cons_self
        obtain rfl : item = first := by
          refine (List.mem_cons.mp hitem).resolve_right fun hmem => ?_
          have hlt := hbefore item hmem
          omega
        obtain ⟨hhour, hgroup⟩ := hfirst
        rw [List.flatMap_cons] at hlength ⊢
        have hread : readColumnGroup flate2
            (between front (item.2 ++ items.flatMap Prod.snd) back) =
              .ok (hour.2, between (front ++ item.2) (items.flatMap Prod.snd) back) :=
          run_between (carries_readColumnGroupLimited ByteReader.Placed.carries_take _ _ _) hgroup
            hlength
        rw [bind_of_ok hread]
        have hrest := @ih (front ++ item.2) (item.1 + 1) items hours hlater (fun other hother => by
            have hlt := hbefore other hother
            have hrange := hfrom other (List.mem_cons_of_mem _ hother)
            rw [List.length_cons] at hrange
            omega)
          (fun i hi => by
            rw [hnext i hi]
            constructor
            · rintro ⟨other, hother, heq⟩
              refine ⟨other, (List.mem_cons.mp hother).resolve_left fun h => ?_, heq⟩
              rw [h] at heq
              omega
            · rintro ⟨other, hother, heq⟩
              exact ⟨other, List.mem_cons_of_mem _ hother, heq⟩)
          hgroups (by
            simp only [length_between, List.length_append] at hlength ⊢
            omega)
        rw [bind_of_ok hrest, List.append_assoc, ← hhour]
        rfl
    · rw [if_neg hpresent]
      refine ih hsorted (fun item hitem => ?_) hnext hgroups hlength
      have hrange := hfrom item hitem
      have hne : item.1 ≠ index := fun heq => hpresent (hmark.mpr ⟨item, hitem, heq⟩)
      rw [List.length_cons] at hrange
      omega

/-- The entry of an hour marks it when it is present. -/
theorem u32At_indexEntry {raw : Record 16} {present : Bool} (h : raw.bytes = indexEntry present) :
    0 < u32At raw 4 ↔ present = true := by
  have hfield : raw.field 4 4 (by decide) = LittleEndian.encode 4 (if present then 1 else 0) := by
    rw [Record.field, part, h]
    rfl
  rw [u32At, hfield]
  cases present <;> decide

theorem isSome_get?_iff {groups : HourMap} {hour : Nat} :
    (groups.get? hour).isSome = true ↔ ∃ item ∈ groups.items, item.1 = hour := by
  simp only [Keyed.get?, List.find?_isSome, decide_eq_true_iff]

/-- The hours that were decoded are those of the map. -/
theorem HourGroups.map_fst {flate2 : Flate2} {items : List (Nat × Bytes)}
    {hours : List (Nat × ColumnGroup)} (h : HourGroups flate2 items hours) :
    hours.map Prod.fst = items.map Prod.fst := by
  induction h with
  | nil => rfl
  | cons hfirst _ ih => rw [List.map_cons, List.map_cons, hfirst.1, ih]

/-- The entries of the index of a map. -/
def indexEntries (groups : HourMap) : List Bytes :=
  (List.range 24).map fun i => indexEntry (groups.get? i).isSome

theorem length_indexEntries (groups : HourMap) : (indexEntries groups).length = 24 := by
  rw [indexEntries, List.length_map, List.length_range]

/-- The segment of a map is read as the groups of the map, with their hours in order, and
the reader is where it ends.  An hour of another day is refused. -/
theorem readTrailingHourSegment_make (flate2 : Flate2) (groups : HourMap) :
    (∀ hours, (∀ item ∈ groups.items, item.1 < 24) → HourGroups flate2 groups.items hours →
      ∃ packet indices, makeTrailingHourSegment groups = .ok packet ∧ indices.length = 24 ∧
        (∀ entry ∈ indices, entry.length = 16) ∧ (hours.map Prod.fst).Pairwise (· < ·) ∧
          ∀ front back, (between front packet back).data.length < 2 ^ 64 →
            readTrailingHourSegment flate2 (between front packet back) =
              .ok ({ header := segmentHeader, hours, indices, skippedNonhourHeader := false },
                between (front ++ packet) [] back)) ∧
      ((∃ item ∈ groups.items, 24 ≤ item.1) →
        makeTrailingHourSegment groups = reject "hour index outside 0..23") := by
  constructor
  · intro hours hrange hgroups
    have hmake : makeTrailingHourSegment groups =
        .ok (segmentHeader ++ (indexEntries groups).flatten ++ groups.items.flatMap Prod.snd) := by
      have hnone : ¬(groups.items.any fun item => decide (24 ≤ item.1)) = true := by
        simp only [List.any_eq_true, decide_eq_true_iff, not_exists, not_and, not_le]
        exact hrange
      exact if_neg hnone
    have hentry : ∀ entry ∈ indexEntries groups, entry.length = 16 := fun entry hentry => by
      obtain ⟨i, -, rfl⟩ := List.mem_map.mp hentry
      rfl
    refine ⟨_, indexEntries groups, hmake, length_indexEntries groups, hentry, ?_, ?_⟩
    · rw [hgroups.map_fst, List.pairwise_map]
      exact groups.sorted
    intro front back hlength
    rw [List.append_assoc] at hlength ⊢
    have hheader : segmentHeader.length = 115 := rfl
    have hindex : (between (front ++ segmentHeader)
        ((indexEntries groups).flatten ++ groups.items.flatMap Prod.snd) back).data.length <
          2 ^ 64 := by
      simp only [length_between, List.length_append] at hlength ⊢
      omega
    obtain ⟨records, hrecords, htimes⟩ := times_take_between hentry hindex
    rw [length_indexEntries] at htimes
    have hcount : records.length = 24 := by
      rw [← length_indexEntries groups, ← hrecords, List.length_map]
    have hmarks : ∀ i, (hi : i < records.length) →
        (0 < u32At records[i] 4 ↔ ∃ item ∈ groups.items, item.1 = 0 + i) := fun i hi => by
      have hbytes : records[i].bytes = indexEntry (groups.get? i).isSome := by
        have hget := congrArg (fun entries => entries[i]?) hrecords
        simp only [List.getElem?_map, indexEntries, List.getElem?_eq_getElem hi,
          List.getElem?_range (hcount ▸ hi : i < 24), Option.map_some] at hget
        exact Option.some.inj hget
      rw [u32At_indexEntry hbytes, isSome_get?_iff, Nat.zero_add]
    have hhours := @readHours_between flate2
      (front ++ segmentHeader ++ (indexEntries groups).flatten)
      back 0 records groups.items hours groups.sorted
      (fun item hitem => ⟨Nat.zero_le _, by have hlt := hrange item hitem; omega⟩)
      hmarks hgroups (by
        simp only [length_between, List.length_append] at hlength ⊢
        omega)
    rw [readTrailingHourSegment, bind_of_ok (take_between hheader hlength)]
    dsimp only
    have hflags :
        ¬LittleEndian.decode (Record.field ⟨segmentHeader, hheader⟩ 93 2 (by decide)) &&& 2 =
        0 := (by decide : ¬LittleEndian.decode (slice segmentHeader 93 2) &&& 2 = 0)
    rw [if_neg hflags, bind_of_ok htimes, bind_of_ok hhours, hrecords, List.append_assoc,
      List.append_assoc]
    rfl
  · rintro ⟨item, hitem, hlarge⟩
    exact if_pos (List.any_eq_true.mpr ⟨item, hitem, decide_eq_true hlarge⟩)

/-- The bytes of a group with times and bids. -/
def sampleGroup (times : List Int) (bids : List F64) : Bytes :=
  makeColumnGroup (fun bytes _ => stored bytes) [(1, .i64 times), (2, .f64 bids)] times.length
    true 3

/-- A group that can be read to its end is one of these bytes. -/
theorem exists_groupBytes {body : Bytes} {rows : List Row}
    (h : (readColumnGroup storedFlate2 (.new body)).toOption.map (fun r => (r.1.rows, r.2)) =
      some (rows, { data := body, position := body.length })) :
    ∃ group, GroupBytes storedFlate2 body group ∧ group.rows = rows := by
  obtain ⟨⟨group, reader⟩, hrun, hread⟩ := Option.map_eq_some_iff.mp h
  obtain ⟨hrows, hreader⟩ := Prod.mk.inj hread
  refine ⟨group, ?_, hrows⟩
  rw [GroupBytes, ← hreader]
  cases hresult : readColumnGroup storedFlate2 (.new body) with
  | error e =>
    rw [hresult] at hrun
    cases hrun
  | ok r =>
    rw [hresult] at hrun
    exact congrArg _ (Option.some.inj hrun)

/-- One tick in the first hour and two in the last one. -/
def sampleHours : HourMap :=
  ⟨[(0, sampleGroup [5] [⟨0x3ff8000000000000⟩]), (23, sampleGroup [7, -2] [.zero, .zero])],
    by decide⟩

theorem readTrailingHourSegment_make_sample :
    ∃ packet hours indices, makeTrailingHourSegment sampleHours = .ok packet ∧
      hours.map (fun hour => (hour.1, hour.2.rows)) =
        [(0, [{ timeMs := some 5, bid := some ⟨0x3ff8000000000000⟩ }]),
          (23, [{ timeMs := some 7, bid := some .zero },
            { timeMs := some 5, bid := some .zero }])] ∧
      readTrailingHourSegment storedFlate2 (between [1] packet [2, 3]) =
        .ok ({ header := segmentHeader, hours, indices, skippedNonhourHeader := false },
          between ([1] ++ packet) [] [2, 3]) := by
  obtain ⟨first, hfirst, hrows⟩ : ∃ group,
      GroupBytes storedFlate2 (sampleGroup [5] [⟨0x3ff8000000000000⟩]) group ∧
        group.rows = [{ timeMs := some 5, bid := some ⟨0x3ff8000000000000⟩ }] :=
    exists_groupBytes (by decide +kernel)
  obtain ⟨last, hlast, hrows'⟩ : ∃ group,
      GroupBytes storedFlate2 (sampleGroup [7, -2] [.zero, .zero]) group ∧
        group.rows = [{ timeMs := some 7, bid := some .zero },
          { timeMs := some 5, bid := some .zero }] :=
    exists_groupBytes (by decide +kernel)
  have hgroups : HourGroups storedFlate2 sampleHours.items [(0, first), (23, last)] :=
    .cons ⟨rfl, hfirst⟩ (.cons ⟨rfl, hlast⟩ .nil)
  obtain ⟨packet, indices, hmake, -, -, -, hread⟩ :=
    (readTrailingHourSegment_make storedFlate2 sampleHours).1 _ (by decide) hgroups
  refine ⟨packet, _, indices, hmake, ?_, hread [1] [2, 3] ?_⟩
  · rw [List.map_cons, List.map_singleton, hrows, hrows']
  · rw [← Except.ok.inj hmake]
    decide +kernel

end Mt5Open.Native.History

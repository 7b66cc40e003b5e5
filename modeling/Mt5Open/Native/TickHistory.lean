import Mathlib.Data.List.FinRange
import Mt5Open.Native.Bitpack
import Mt5Open.Native.Columns

/-!
# Tick histories

A response holds counted containers and at most two trailing ones.  A container
stores its ticks as one column group, as a group for each hour of a day, or
packed bit by bit.  One budget of ticks and of decoded bytes is threaded through
all of them.

`decodeTickHistory_within` says that the decoder never panics, and that what it
accepts is within the budgets: the containers stand one behind the other, each
holds the ticks and the data bytes that its header declares.
-/

namespace Mt5Open.Native.Ticks

open Lib History

def MAX_TICKS : Nat := 1000000
def MAX_EXPANSION : Nat := 64 * 1024 * 1024

structure TickCache where
  date : Nat
  time : Int
  size : Int
  flags : Nat
  crc : Nat
  deriving DecidableEq, Repr

structure TickExtension where
  hour : Option Nat
  column : Descriptor
  deriving DecidableEq, Repr

structure TickContainer where
  cache : TickCache
  ticks : List Row
  extensions : List TickExtension
  deriving DecidableEq, Repr

structure TickHistory where
  symbol : String
  more : Bool
  containers : List TickContainer
  trailing : List TickContainer
  deriving DecidableEq, Repr

structure Budget where
  ticks : Nat
  bytes : Nat
  deriving DecidableEq, Repr

/-- The byte reader and the budget, which go from container to container. -/
structure TickReader where
  reader : ByteReader
  budget : Budget
  deriving DecidableEq, Repr

abbrev TickScan := Decoder Fault TickReader

/-- A step of the byte reader. -/
def scan {α : Type} (x : Scan α) : TickScan α := fun s =>
  match x s.reader with
  | .error e => .error e
  | .ok (a, reader) => .ok (a, { s with reader })

/-- `Err(ProtocolError::new(message))`. -/
def fail {α : Type} (message : String) : TickScan α := Decoder.raise (.rejected ⟨message⟩)

/-- `a - b`, which panics below zero. -/
def checkedSub (a b : Nat) : Except Fault Nat := if b ≤ a then .ok (a - b) else .error .panicked

def u16At {size : Nat} (r : Record size) (offset : Nat) (h : offset + 2 ≤ size := by decide) :
    Nat :=
  LittleEndian.decode (r.field offset 2 h)

def byteAt {size : Nat} (r : Record size) (offset : Nat) (h : offset + 1 ≤ size := by decide) :
    Nat :=
  LittleEndian.decode (r.field offset 1 h)

/-- `tick_history::group`. -/
def group (flate2 : Flate2) (hour : Option Nat) : TickScan (List Row × List TickExtension) := do
  let budget := (← get).budget
  let group ← scan (readColumnGroupLimited flate2 budget.ticks budget.bytes)
  let ticks ← Decoder.ofResult (checkedSub budget.ticks group.rows.length)
  let bytes ← Decoder.ofResult (checkedSub budget.bytes (decodedBytes group.descriptors))
  modify fun s => { s with budget := { ticks, bytes } }
  return (group.rows,
    (group.descriptors.filter fun d => !d.projected || !d.unusedTail.isEmpty).map
      fun column => { hour, column })

/-- The groups of the hours whose index is not zero. -/
def hours (flate2 : Flate2) (indices : Record (24 * 16)) :
    List (Fin 24) → TickScan (List Row × List TickExtension)
  | [] => return ([], [])
  | hour :: rest => do
    if u32At indices (hour * 16 + 4) (by omega) ≠ 0 then
      let (rows, extensions) ← group flate2 (some hour)
      let (others, more) ← hours flate2 indices rest
      return (rows ++ others, extensions ++ more)
    else hours flate2 indices rest

section Packed

open BitReader

variable (ratio : Int → Nat → F64)

/-- One packed tick.  The prices are divided by a power of ten, in floating point. -/
def packedTick (digits : Nat) : BitDecoder Row := do
  let tag ← packed 64 true
  if tag ≠ 5 then Decoder.raise ⟨"unsupported packed tick tag"⟩
  else
    let timeMs ← packed 64 true
    let bid ← signedMagnitude 64
    let ask ← signedMagnitude 64
    let last ← signedMagnitude 64
    let whole ← packed 64 false
    let auxiliary64 ← packed 64 false
    let _ ← packed 32 false
    let _ ← signedMagnitude 8
    let fraction ← packed 64 false
    return {
      timeMs := some timeMs
      bid := some (ratio bid digits)
      ask := some (ratio ask digits)
      last := some (ratio last digits)
      volume := some ((whole * 100000000 + fraction) % 2 ^ 64)
      auxiliary64 := some auxiliary64 }

/-- The packed ticks of a container: the bytes of its data, a number of bits and
the length of the digits come from its header. -/
def packedTicks (h : Record 115) (data : Bytes) (digits count : Nat) : Except Fault (List Row) := do
  let limit := h.i32 78
  if limit < 0 then refuse "negative tick bit count"
  else
    let bits ← Fault.ofResult (withLimit data limit.toNat (byteAt h 86))
    let (ticks, _) ← Fault.ofResult (Decoder.times (packedTick ratio digits) count bits)
    return ticks

end Packed

/-- The ticks of a container, in the encoding that its flags say. -/
def containerTicks (flate2 : Flate2) (ratio : Int → Nat → F64) (h : Record 115) :
    TickScan (List Row × List TickExtension) := do
  let flags := u16At h 93
  let digits := u16At h 91
  if flags &&& 2 ≠ 0 then
    let indices ← scan (ByteReader.take (24 * 16))
    hours flate2 indices (List.finRange 24)
  else if flags &&& 4 ≠ 0 then group flate2 none
  else if flags &&& 1 ≠ 0 ∨ 12 < digits then
    fail "unsupported packed tick compression/precision"
  else
    let data ← scan (ByteReader.take (h.i32 70).toNat)
    let ticks ← Decoder.ofResult (packedTicks ratio h data.bytes digits (h.i32 82).toNat)
    let budget := (← get).budget
    let left ← Decoder.ofResult (checkedSub budget.ticks ticks.length)
    modify fun s => { s with budget := { budget with ticks := left } }
    return (ticks, [])

/-- `tick_history::container`. -/
def container (flate2 : Flate2) (ratio : Int → Nat → F64) (symbol : String) :
    TickScan TickContainer := do
  let h ← scan (ByteReader.take 115)
  let headerSize := u16At h 0
  let flags := u16At h 93
  let count := h.i32 82
  let size := h.i32 70
  let budget := (← get).budget
  if h.text 2 64 ≠ symbol ∨ ¬(headerSize = 115 ∨ headerSize = 499) then
    fail "tick history container identity/size mismatch"
  else if count < 0 ∨ budget.ticks < count.toNat ∨ size < 0 then
    fail "tick history container bounds exceeded"
  else
    let bodyStart := (← get).reader.position
    let (ticks, extensions) ← containerTicks flate2 ratio h
    let position := (← get).reader.position
    let read ← Decoder.ofResult (checkedSub position bodyStart)
    let consumed ← Decoder.ofResult (checkedSub read (if flags &&& 2 ≠ 0 then 384 else 0))
    if consumed ≠ size.toNat then fail "tick container data size mismatch"
    else if ticks.length ≠ count.toNat then fail "tick history count mismatch"
    else
      return {
        cache := {
          date := u16At h 66
          time := h.i32 87
          size
          flags
          crc := (h.i32 103 % 2 ^ 32).toNat }
        ticks
        extensions }

/-- The loop over the trailing containers, as long as bytes are left. -/
def trailingContainers (flate2 : Flate2) (ratio : Int → Nat → F64) (symbol : String) :
    Nat → TickScan (List TickContainer)
  | 0 => return []
  | n + 1 => do
    let r := (← get).reader
    if r.position < r.data.length then
      let c ← container flate2 ratio symbol
      let rest ← trailingContainers flate2 ratio symbol n
      return c :: rest
    else trailingContainers flate2 ratio symbol n

/-- The body of `decode_tick_history`. -/
def tickHistory (flate2 : Flate2) (ratio : Int → Nat → F64) : TickScan TickHistory := do
  let status := (← scan (ByteReader.take 4)).i32 0 (Nat.le_refl _)
  if ¬(status = 0 ∨ status = 14) then fail s!"unsupported tick history status {status}"
  else
    let kind ← scan (ByteReader.take 1)
    if kind.bytes ≠ [14] then fail s!"unsupported tick history status {status}"
    else
      let symbol := (← scan (ByteReader.take 64)).text 0 64 (Nat.le_refl _)
      let _ ← scan (ByteReader.take 16)
      let count := (← scan (ByteReader.take 4)).i32 0 (Nat.le_refl _)
      if ¬(0 ≤ count ∧ count ≤ 4096) then fail "tick history container count exceeded"
      else
        let containers ← Decoder.times (container flate2 ratio symbol) count.toNat
        let trailing ← trailingContainers flate2 ratio symbol 2
        let r := (← get).reader
        if r.position ≠ r.data.length then fail "trailing tick history bytes"
        else return { symbol, more := status == 14, containers, trailing }

/-- `decode_tick_history`. -/
def decodeTickHistory (flate2 : Flate2) (ratio : Int → Nat → F64) (bytes : Bytes) :
    Except Fault TickHistory := do
  let (history, _) ← tickHistory flate2 ratio
    { reader := .new bytes, budget := { ticks := MAX_TICKS, bytes := MAX_EXPANSION } }
  return history

/-! ## The containers of a response -/

/-- Groups in a row, as they are read from one position to another. -/
inductive GroupsAt (flate2 : Flate2) (data : Bytes) : Nat → List ColumnGroup → Nat → Prop
  | nil (start : Nat) : GroupsAt flate2 data start [] start
  | cons {start middle stop maxTicks maxBytes : Nat} {g : ColumnGroup} {groups : List ColumnGroup}
      (first : readColumnGroupLimited flate2 maxTicks maxBytes ⟨data, start⟩ =
        .ok (g, ⟨data, middle⟩))
      (others : GroupsAt flate2 data middle groups stop) :
      GroupsAt flate2 data start (g :: groups) stop

/-- The bytes between the header of a container and its data. -/
def indexBytes (h : Record 115) : Nat := if u16At h 93 &&& 2 ≠ 0 then 384 else 0

/-- A container that stands at these bytes.  It holds the ticks and occupies the
data bytes that its header declares, and its ticks are the rows of its groups
unless they are packed. -/
def ContainerAt (flate2 : Flate2) (data : Bytes) (start : Nat) (c : TickContainer)
    (groups : List ColumnGroup) (stop : Nat) : Prop :=
  ∃ h : Record 115, slice data start 115 = h.bytes ∧ c.ticks.length = h.i32 82 ∧
    (stop : Int) = start + 115 + indexBytes h + h.i32 70 ∧ stop ≤ data.length ∧
    if u16At h 93 &&& 2 ≠ 0 ∨ u16At h 93 &&& 4 ≠ 0 then
      GroupsAt flate2 data (start + 115 + indexBytes h) groups stop ∧
        c.ticks = groups.flatMap (·.rows)
    else groups = []

/-- Containers in a row, each with its groups. -/
inductive ContainersAt (flate2 : Flate2) (data : Bytes) :
    Nat → List TickContainer → List (List ColumnGroup) → Nat → Prop
  | nil (start : Nat) : ContainersAt flate2 data start [] [] start
  | cons {start middle stop : Nat} {c : TickContainer} {containers : List TickContainer}
      {own : List ColumnGroup} {groups : List (List ColumnGroup)}
      (first : ContainerAt flate2 data start c own middle)
      (others : ContainersAt flate2 data middle containers groups stop) :
      ContainersAt flate2 data start (c :: containers) (own :: groups) stop

theorem GroupsAt.append {flate2 : Flate2} {data : Bytes} {start middle stop : Nat}
    {groups others : List ColumnGroup} (h : GroupsAt flate2 data start groups middle)
    (h' : GroupsAt flate2 data middle others stop) :
    GroupsAt flate2 data start (groups ++ others) stop := by
  induction h with
  | nil => exact h'
  | cons first _ ih => exact .cons first (ih h')

theorem ContainersAt.append {flate2 : Flate2} {data : Bytes} {start middle stop : Nat}
    {containers more : List TickContainer} {groups others : List (List ColumnGroup)}
    (h : ContainersAt flate2 data start containers groups middle)
    (h' : ContainersAt flate2 data middle more others stop) :
    ContainersAt flate2 data start (containers ++ more) (groups ++ others) stop := by
  induction h with
  | nil => exact h'
  | cons first _ ih => exact .cons first (ih h')

/-! ## One container -/

section OneContainer

variable {flate2 : Flate2} {ratio : Int → Nat → F64} {α : Type}

theorem scan_yields {x : Scan α} {s : TickReader} {Q : α → ByteReader → Prop}
    (h : x.Yields s.reader Q Fault.Orderly) :
    (scan x).Yields s (fun a t => Q a t.reader ∧ t.budget = s.budget) Fault.Orderly := by
  unfold Decoder.Yields at *
  unfold scan
  split at h
  · rename_i hrun
    rw [hrun]
    exact ⟨h, rfl⟩
  · rename_i hrun
    rw [hrun]
    exact h

/-- The reader behind the next `size` bytes. -/
def TickReader.skip (s : TickReader) (size : Nat) : TickReader :=
  { s with reader := { s.reader with position := s.reader.position + size } }

@[simp] theorem TickReader.skip_data (s : TickReader) (size : Nat) :
    (s.skip size).reader.data = s.reader.data := rfl

@[simp] theorem TickReader.skip_position (s : TickReader) (size : Nat) :
    (s.skip size).reader.position = s.reader.position + size := rfl

@[simp] theorem TickReader.skip_budget (s : TickReader) (size : Nat) :
    (s.skip size).budget = s.budget := rfl

theorem TickReader.skip_ahead {s : TickReader} {size : Nat}
    (h : s.reader.position + size ≤ s.reader.data.length) : s.reader.Ahead (s.skip size).reader :=
  ⟨rfl, Nat.le_add_right _ _, fun _ => h⟩

theorem take_yields (size : Nat) (s : TickReader) :
    (scan (ByteReader.take size)).Yields s
      (fun a t => a.bytes = slice s.reader.data s.reader.position size ∧ t = s.skip size ∧
        s.reader.position + size ≤ s.reader.data.length) Fault.Orderly := by
  refine (scan_yields (History.take_yields size s.reader)).mono fun a t ht => ?_
  obtain ⟨reader, budget⟩ := t
  obtain ⟨⟨hbytes, rfl, hend⟩, rfl⟩ := ht
  exact ⟨hbytes, rfl, hend⟩

theorem ofResult_yields {r : Except Fault α} {Q : α → Prop} (h : Sound r Q) (s : TickReader) :
    (Decoder.ofResult r : TickScan α).Yields s (fun a t => Q a ∧ t = s) Fault.Orderly :=
  .ofResult (fun _ ha => ⟨h.of_ok ha, rfl⟩) fun _ he => h.of_error he

theorem sound_checkedSub {a b : Nat} (h : b ≤ a) : Sound (checkedSub a b) fun c => c + b = a := by
  rw [checkedSub, if_pos h]
  exact Nat.sub_add_cancel h

/-- The groups that were read on the way from one state to another, and what they
took from the budget. -/
structure Reads (flate2 : Flate2) (s t : TickReader) (groups : List ColumnGroup) : Prop where
  ahead : s.reader.Ahead t.reader
  groupsAt : GroupsAt flate2 s.reader.data s.reader.position groups t.reader.position
  ticks : t.budget.ticks + (groups.flatMap (·.rows)).length = s.budget.ticks
  bytes : t.budget.bytes + (groups.map fun g => decodedBytes g.descriptors).sum = s.budget.bytes

theorem Reads.refl (s : TickReader) : Reads flate2 s s [] := ⟨.refl _, .nil _, rfl, rfl⟩

theorem Reads.trans {s t u : TickReader} {groups others : List ColumnGroup}
    (h : Reads flate2 s t groups) (h' : Reads flate2 t u others) :
    Reads flate2 s u (groups ++ others) := by
  have hgroups := h'.groupsAt
  rw [h.ahead.1] at hgroups
  refine ⟨h.ahead.trans h'.ahead, h.groupsAt.append hgroups, ?_, ?_⟩
  · rw [List.flatMap_append, List.length_append, ← h.ticks, ← h'.ticks]
    omega
  · rw [List.map_append, List.sum_append, ← h.bytes, ← h'.bytes]
    omega

theorem group_yields (hwrites : flate2.WritesWithin) (hour : Option Nat) (s : TickReader) :
    (group flate2 hour).Yields s (fun p t => ∃ g, Reads flate2 s t [g] ∧ p.1 = g.rows)
      Fault.Orderly := by
  refine .get ?_
  have hread := safe_readColumnGroupLimited hwrites s.budget.ticks s.budget.bytes s.reader
  refine (scan_yields hread.self).bind fun g t ht => ?_
  obtain ⟨⟨hrun, hahead, hrows, hbytes⟩, hbudget⟩ := ht
  refine (ofResult_yields (sound_checkedSub hrows) t).bind fun ticks u hu => ?_
  obtain ⟨hticks, rfl⟩ := hu
  refine (ofResult_yields (sound_checkedSub hbytes) u).bind fun left v hv => ?_
  obtain ⟨hleft, rfl⟩ := hv
  refine .modify (.pure ⟨g, ⟨hahead, ?_, ?_, ?_⟩, rfl⟩)
  · have hfirst : readColumnGroupLimited flate2 s.budget.ticks s.budget.bytes
        ⟨s.reader.data, s.reader.position⟩ = .ok (g, ⟨s.reader.data, v.reader.position⟩) :=
      hrun.trans (by rw [← hahead.1])
    exact .cons hfirst (.nil _)
  · simpa using hticks
  · simpa using hleft

theorem hours_yields (hwrites : flate2.WritesWithin) (indices : Record (24 * 16))
    (list : List (Fin 24)) (s : TickReader) :
    (hours flate2 indices list).Yields s
      (fun p t => ∃ groups, Reads flate2 s t groups ∧ p.1 = groups.flatMap (·.rows))
      Fault.Orderly := by
  induction list generalizing s with
  | nil => exact .pure ⟨[], .refl s, rfl⟩
  | cons hour list ih =>
    rw [hours]
    split
    · refine (group_yields hwrites _ s).bind fun p t hp => ?_
      obtain ⟨g, hg, hrows⟩ := hp
      refine (ih t).bind fun q u hq => .pure ?_
      obtain ⟨groups, hgroups, hothers⟩ := hq
      exact ⟨g :: groups, hg.trans hgroups, by rw [hrows, hothers]; rfl⟩
    · exact ih s

/-- The ticks of a container with the header `h`, behind its header. -/
def TicksRead (flate2 : Flate2) (h : Record 115) (s t : TickReader) (ticks : List Row)
    (groups : List ColumnGroup) : Prop :=
  s.reader.Ahead t.reader ∧ s.reader.position + indexBytes h ≤ t.reader.position ∧
    t.budget.ticks + ticks.length = s.budget.ticks ∧
    t.budget.bytes + (groups.map fun g => decodedBytes g.descriptors).sum = s.budget.bytes ∧
    if u16At h 93 &&& 2 ≠ 0 ∨ u16At h 93 &&& 4 ≠ 0 then
      GroupsAt flate2 s.reader.data (s.reader.position + indexBytes h) groups
        t.reader.position ∧ ticks = groups.flatMap (·.rows)
    else groups = []

theorem sound_packedTicks (h : Record 115) (data : Bytes) (digits count : Nat) :
    Sound (packedTicks ratio h data digits count) fun ticks => ticks.length = count := by
  unfold packedTicks
  dsimp only
  split
  · exact .refuse _
  · refine (Sound.ofResult fun _ _ => trivial : Sound _ fun _ => True).bind fun bits _ => ?_
    refine (Sound.ofResult fun p hp => Decoder.length_of_times hp).bind fun p hp => ?_
    exact .ok hp

theorem containerTicks_yields (hwrites : flate2.WritesWithin) (h : Record 115)
    (s : TickReader) (hcount : (h.i32 82).toNat ≤ s.budget.ticks) :
    (containerTicks flate2 ratio h).Yields s
      (fun p t => ∃ groups, TicksRead flate2 h s t p.1 groups) Fault.Orderly := by
  unfold containerTicks
  dsimp only
  by_cases hhours : u16At h 93 &&& 2 ≠ 0
  · -- A day of hours, behind their indices.
    have hindex : indexBytes h = 384 := if_pos hhours
    rw [if_pos hhours]
    refine (take_yields (24 * 16) s).bind fun indices t ht => ?_
    obtain ⟨-, rfl, hend⟩ := ht
    refine (hours_yields hwrites indices _ _).mono fun p u hp => ?_
    obtain ⟨groups, hreads, hrows⟩ := hp
    refine ⟨groups, (TickReader.skip_ahead hend).trans hreads.ahead, ?_, ?_, hreads.bytes, ?_⟩
    · rw [hindex]
      exact hreads.ahead.2.1
    · rw [hrows]
      exact hreads.ticks
    · rw [if_pos (.inl hhours), hindex]
      exact ⟨hreads.groupsAt, hrows⟩
  rw [if_neg hhours]
  have hindex : indexBytes h = 0 := if_neg hhours
  by_cases hgroup : u16At h 93 &&& 4 ≠ 0
  · -- One group.
    rw [if_pos hgroup]
    refine (group_yields hwrites none s).mono fun p t hp => ?_
    obtain ⟨g, hreads, hrows⟩ := hp
    have hflat : p.1 = [g].flatMap (·.rows) := by simpa using hrows
    refine ⟨[g], hreads.ahead, ?_, ?_, hreads.bytes, ?_⟩
    · rw [hindex]
      exact hreads.ahead.2.1
    · rw [hflat]
      exact hreads.ticks
    · rw [if_pos (.inr hgroup), hindex]
      exact ⟨hreads.groupsAt, hflat⟩
  rw [if_neg hgroup]
  split
  · exact .raise nofun
  · -- Packed ticks, which are not in a group.
    refine (take_yields _ s).bind fun data t ht => ?_
    obtain ⟨-, rfl, hend⟩ := ht
    refine (ofResult_yields (sound_packedTicks h _ _ _) _).bind fun ticks u hu => ?_
    obtain ⟨hlength, rfl⟩ := hu
    refine .get ?_
    have hbudget : ticks.length ≤ s.budget.ticks := hlength ▸ hcount
    refine (ofResult_yields (sound_checkedSub hbudget) _).bind fun left v hv => ?_
    obtain ⟨hleft, rfl⟩ := hv
    refine .modify (.pure ⟨[], TickReader.skip_ahead hend, ?_, hleft, rfl, ?_⟩)
    · rw [hindex]
      exact Nat.le_add_right _ _
    · rw [if_neg (not_or.mpr ⟨hhours, hgroup⟩)]

/-- The containers that were read on the way from one state to another, with their
groups, and what they took from the budget. -/
structure ContainersRead (flate2 : Flate2) (s t : TickReader) (containers : List TickContainer)
    (groups : List (List ColumnGroup)) : Prop where
  ahead : s.reader.Ahead t.reader
  containersAt : ContainersAt flate2 s.reader.data s.reader.position containers groups
    t.reader.position
  ticks : t.budget.ticks + (containers.map (·.ticks.length)).sum = s.budget.ticks
  bytes : t.budget.bytes + (groups.flatten.map fun g => decodedBytes g.descriptors).sum =
    s.budget.bytes

theorem ContainersRead.refl (s : TickReader) : ContainersRead flate2 s s [] [] :=
  ⟨.refl _, .nil _, rfl, rfl⟩

theorem ContainersRead.trans {s t u : TickReader} {containers more : List TickContainer}
    {groups others : List (List ColumnGroup)} (h : ContainersRead flate2 s t containers groups)
    (h' : ContainersRead flate2 t u more others) :
    ContainersRead flate2 s u (containers ++ more) (groups ++ others) := by
  have hcontainers := h'.containersAt
  rw [h.ahead.1] at hcontainers
  refine ⟨h.ahead.trans h'.ahead, h.containersAt.append hcontainers, ?_, ?_⟩
  · rw [List.map_append, List.sum_append, ← h.ticks, ← h'.ticks]
    omega
  · rw [List.flatten_append, List.map_append, List.sum_append, ← h.bytes, ← h'.bytes]
    omega

/-- A container stands at its place, and it takes its ticks and its decoded bytes
from the budget. -/
theorem container_yields (hwrites : flate2.WritesWithin) (symbol : String) (s : TickReader) :
    (container flate2 ratio symbol).Yields s
      (fun c t => ∃ groups, ContainersRead flate2 s t [c] [groups]) Fault.Orderly := by
  refine (take_yields 115 s).bind fun h t ht => ?_
  obtain ⟨hheader, rfl, hend⟩ := ht
  refine .get ?_
  dsimp only
  split
  · exact .raise nofun
  · split
    · exact .raise nofun
    · rename_i hbounds
      simp only [not_or, Int.not_lt, Nat.not_lt] at hbounds
      obtain ⟨hcount, hticks, hsize⟩ := hbounds
      refine .get ?_
      refine (containerTicks_yields hwrites h (s.skip 115) hticks).bind fun p u hp => ?_
      obtain ⟨groups, hahead, hskip, hleft, hbytes, hgroups⟩ := hp
      refine .get ?_
      simp only [TickReader.skip_data, TickReader.skip_position, TickReader.skip_budget] at *
      -- The data ends behind the header and the indices.
      have hread : s.reader.position + 115 ≤ u.reader.position := by omega
      refine (ofResult_yields (sound_checkedSub hread) u).bind fun read v hv => ?_
      obtain ⟨hread, rfl⟩ := hv
      have hindex : indexBytes h ≤ read := by omega
      refine (ofResult_yields (sound_checkedSub hindex) v).bind fun consumed w hw => ?_
      obtain ⟨hconsumed, rfl⟩ := hw
      split
      · exact .raise nofun
      · rename_i hdata
        split
        · exact .raise nofun
        · rename_i hnumber
          rw [Decidable.not_not] at hdata hnumber
          have hlength : (p.1.length : Int) = h.i32 82 := by omega
          have hstop : (w.reader.position : Int) =
              s.reader.position + 115 + indexBytes h + h.i32 70 := by omega
          refine .pure ⟨groups, (TickReader.skip_ahead hend).trans hahead,
            .cons ⟨h, hheader.symm, hlength, hstop, ?_, ?_⟩ (.nil _), ?_, ?_⟩
          · exact hahead.2.2 hend
          · exact hgroups
          · simpa using hleft
          · simpa using hbytes

end OneContainer

/-! ## The response -/

section Response

variable {flate2 : Flate2} {ratio : Int → Nat → F64}

/-- A container in front of others. -/
theorem container_cons_yields (hwrites : flate2.WritesWithin) (symbol : String)
    {x : TickScan (List TickContainer)}
    (hx : ∀ s, x.Yields s
      (fun containers t => ∃ groups, ContainersRead flate2 s t containers groups) Fault.Orderly)
    (s : TickReader) :
    (do
      let c ← container flate2 ratio symbol
      let rest ← x
      return c :: rest : TickScan (List TickContainer)).Yields s
      (fun containers t => ∃ groups, ContainersRead flate2 s t containers groups)
      Fault.Orderly := by
  refine (container_yields hwrites symbol s).bind fun c t hc => ?_
  obtain ⟨own, hown⟩ := hc
  refine (hx t).bind fun containers u hcontainers => .pure ?_
  obtain ⟨groups, hgroups⟩ := hcontainers
  exact ⟨own :: groups, hown.trans hgroups⟩

theorem containers_yields (hwrites : flate2.WritesWithin) (symbol : String) (n : Nat)
    (s : TickReader) :
    (Decoder.times (container flate2 ratio symbol) n).Yields s
      (fun containers t => ∃ groups, ContainersRead flate2 s t containers groups)
      Fault.Orderly := by
  induction n generalizing s with
  | zero => exact .pure ⟨[], .refl s⟩
  | succ n ih => exact container_cons_yields hwrites symbol ih s

theorem trailingContainers_yields (hwrites : flate2.WritesWithin) (symbol : String) (n : Nat)
    (s : TickReader) :
    (trailingContainers flate2 ratio symbol n).Yields s
      (fun containers t => ∃ groups, ContainersRead flate2 s t containers groups)
      Fault.Orderly := by
  induction n generalizing s with
  | zero => exact .pure ⟨[], .refl s⟩
  | succ n ih =>
    refine .get ?_
    dsimp only
    split
    · exact container_cons_yields hwrites symbol ih s
    · exact ih s

/-- The bytes before the first container. -/
def PREAMBLE : Nat := 4 + 1 + 64 + 16 + 4

/-- What `decode_tick_history` reads before the containers: the symbol, whether there are
more ticks, and the number of counted containers. -/
def preamble : TickScan (String × Bool × Nat) := do
  let status := (← scan (ByteReader.take 4)).i32 0 (Nat.le_refl _)
  if ¬(status = 0 ∨ status = 14) then fail s!"unsupported tick history status {status}"
  else
    let kind ← scan (ByteReader.take 1)
    if kind.bytes ≠ [14] then fail s!"unsupported tick history status {status}"
    else
      let symbol := (← scan (ByteReader.take 64)).text 0 64 (Nat.le_refl _)
      let _ ← scan (ByteReader.take 16)
      let count := (← scan (ByteReader.take 4)).i32 0 (Nat.le_refl _)
      if ¬(0 ≤ count ∧ count ≤ 4096) then fail "tick history container count exceeded"
      else return (symbol, status == 14, count.toNat)

/-- What `decode_tick_history` reads behind the preamble. -/
def containersOf (flate2 : Flate2) (ratio : Int → Nat → F64) (p : String × Bool × Nat) :
    TickScan TickHistory := do
  let containers ← Decoder.times (container flate2 ratio p.1) p.2.2
  let trailing ← trailingContainers flate2 ratio p.1 2
  let r := (← get).reader
  if r.position ≠ r.data.length then fail "trailing tick history bytes"
  else return { symbol := p.1, more := p.2.1, containers, trailing }

theorem tickHistory_eq (flate2 : Flate2) (ratio : Int → Nat → F64) :
    tickHistory flate2 ratio = preamble >>= containersOf flate2 ratio := by
  unfold tickHistory preamble
  rw [bind_assoc]
  refine bind_congr fun status => ?_
  dsimp only
  split
  · rfl
  rw [bind_assoc]
  refine bind_congr fun kind => ?_
  split
  · rfl
  rw [bind_assoc]
  refine bind_congr fun symbol => ?_
  rw [bind_assoc]
  refine bind_congr fun reserved => ?_
  rw [bind_assoc]
  refine bind_congr fun count => ?_
  split
  · rfl
  · rfl

theorem preamble_yields (s : TickReader) :
    preamble.Yields s
      (fun _ t => t = s.skip PREAMBLE ∧ s.reader.position + PREAMBLE ≤ s.reader.data.length)
      Fault.Orderly := by
  refine (take_yields 4 s).bind fun status t ht => ?_
  obtain ⟨-, rfl, -⟩ := ht
  dsimp only
  split
  · exact .raise nofun
  refine (take_yields 1 _).bind fun kind t ht => ?_
  obtain ⟨-, rfl, -⟩ := ht
  split
  · exact .raise nofun
  refine (take_yields 64 _).bind fun symbol t ht => ?_
  obtain ⟨-, rfl, -⟩ := ht
  refine (take_yields 16 _).bind fun reserved t ht => ?_
  obtain ⟨-, rfl, -⟩ := ht
  refine (take_yields 4 _).bind fun count t ht => ?_
  obtain ⟨-, rfl, hend⟩ := ht
  split
  · exact .raise nofun
  · exact .pure ⟨rfl, hend⟩

/-- The containers of a response, from behind its preamble to its end. -/
theorem tickHistory_yields (hwrites : flate2.WritesWithin) (bytes : Bytes) (budget : Budget) :
    (tickHistory flate2 ratio).Yields { reader := .new bytes, budget }
      (fun history t => ∃ groups, ContainersRead flate2 ⟨⟨bytes, PREAMBLE⟩, budget⟩ t
        (history.containers ++ history.trailing) groups ∧ t.reader.position = bytes.length)
      Fault.Orderly := by
  rw [tickHistory_eq]
  refine (preamble_yields _).bind fun p t ht => ?_
  obtain ⟨rfl, -⟩ := ht
  refine (containers_yields hwrites _ _ _).bind fun containers t hcontainers => ?_
  obtain ⟨groups, hgroups⟩ := hcontainers
  refine (trailingContainers_yields hwrites _ _ t).bind fun trailing u htrailing => ?_
  obtain ⟨others, hothers⟩ := htrailing
  refine .get ?_
  dsimp only
  split
  · exact .raise nofun
  · rename_i hend
    rw [Decidable.not_not] at hend
    have hread := hgroups.trans hothers
    exact .pure ⟨groups ++ others, hread, hend.trans (congrArg List.length hread.ahead.1)⟩

theorem decodeTickHistory_ne_panicked (hwrites : flate2.WritesWithin) (bytes : Bytes) :
    decodeTickHistory flate2 ratio bytes ≠ .error .panicked := by
  have hrun : (tickHistory flate2 ratio).Yields _ _ _ :=
    tickHistory_yields hwrites bytes { ticks := MAX_TICKS, bytes := MAX_EXPANSION }
  intro herror
  cases hresult : tickHistory flate2 ratio
      { reader := .new bytes, budget := { ticks := MAX_TICKS, bytes := MAX_EXPANSION } } with
  | error fault =>
    rw [decodeTickHistory, hresult] at herror
    exact hrun.error hresult (Except.error.inj herror)
  | ok p =>
    rw [decodeTickHistory, hresult] at herror
    cases herror

/-- The decoder does not panic, whatever the bytes are, and the containers that it
accepts fill the response and are within the budgets.  Nor does a bit reader read
behind its data, which packed ticks come from. -/
theorem decodeTickHistory_within (hwrites : flate2.WritesWithin) (ratio : Int → Nat → F64)
    (bytes : Bytes) :
    (∀ history, decodeTickHistory flate2 ratio bytes = .ok history → ∃ groups,
      ContainersAt flate2 bytes PREAMBLE (history.containers ++ history.trailing) groups
        bytes.length ∧
      ((history.containers ++ history.trailing).map (·.ticks.length)).sum ≤ 1000000 ∧
      (groups.flatten.map fun g => decodedBytes g.descriptors).sum ≤ 64 * 1024 * 1024) ∧
    decodeTickHistory flate2 ratio bytes ≠ .error .panicked ∧
    ∀ (count v : Nat) (r t : BitReader), BitReader.bits count r = .ok (v, t) →
      ∀ i < count, (r.position + i) / 8 < r.data.length := by
  have hrun : (tickHistory flate2 ratio).Yields _ _ _ :=
    tickHistory_yields hwrites bytes { ticks := MAX_TICKS, bytes := MAX_EXPANSION }
  refine ⟨?_, decodeTickHistory_ne_panicked hwrites bytes,
    fun count v r t hbits i hi => BitReader.bits_in_range hbits hi⟩
  intro history hok
  obtain ⟨⟨result, t⟩, htickHistory, hresult⟩ := except_bind_eq_ok.mp hok
  cases Except.ok.inj hresult
  obtain ⟨groups, hread, hend⟩ := hrun.ok htickHistory
  have hticks := hread.ticks
  have hbytes := hread.bytes
  refine ⟨groups, ?_, ?_, ?_⟩
  · rw [← hend]
    exact hread.containersAt
  · dsimp only [MAX_TICKS] at hticks
    omega
  · dsimp only [MAX_EXPANSION] at hbytes
    omega

/-! ## A sample -/

theorem storedFlate2_writesWithin : storedFlate2.WritesWithin := by
  intro decoder input capacity next step hstep
  have hemit : ∀ (out : Bytes) (consumed : Nat) (h : consumed ≤ input.length) p,
      ((emit out input consumed h capacity).map fun r => ((false, r.1), r.2)) = .ok p →
        p.2.written.length ≤ capacity := by
    intro out consumed h p hp
    cases Except.ok.inj hp
    exact List.length_take_le _ _
  match decoder with
  | (true, _) => cases hstep
  | (false, some out) => exact hemit out 0 (Nat.zero_le _) _ hstep
  | (false, none) =>
    simp only [storedFlate2] at hstep
    split at hstep
    · cases hstep
    · exact hemit _ _ _ _ hstep

/-- A container of one group. -/
def sampleContainer : Bytes :=
  let data := makeColumnGroup (fun bytes _ => stored bytes) sampleColumns 2 true 3
  [115, 0] ++ List.replicate 68 0 ++ LittleEndian.encode 4 data.length ++ List.replicate 8 0 ++
    [2, 0, 0, 0] ++ List.replicate 7 0 ++ [4, 0] ++ List.replicate 20 0 ++ data

/-- One counted container and a trailing one. -/
def sampleResponse : Bytes :=
  [0, 0, 0, 0, 14] ++ List.replicate 80 0 ++ [1, 0, 0, 0] ++ sampleContainer ++ sampleContainer

theorem decodeTickHistory_within_sample :
    ∃ history groups,
      decodeTickHistory storedFlate2 (fun _ _ => .zero) sampleResponse = .ok history ∧
      ContainersAt storedFlate2 sampleResponse PREAMBLE (history.containers ++ history.trailing)
        groups sampleResponse.length ∧
      (history.containers ++ history.trailing).map (·.ticks.length) = [2, 2] ∧
      (groups.flatten.map fun g => decodedBytes g.descriptors).sum ≤ 64 * 1024 * 1024 := by
  obtain ⟨hwithin, -⟩ :=
    decodeTickHistory_within storedFlate2_writesWithin (fun _ _ => .zero) sampleResponse
  have hlengths : ((decodeTickHistory storedFlate2 (fun _ _ => .zero) sampleResponse).map
      fun history => (history.containers ++ history.trailing).map (·.ticks.length)) =
        .ok [2, 2] := by decide +kernel
  cases hrun : decodeTickHistory storedFlate2 (fun _ _ => .zero) sampleResponse with
  | error fault =>
    rw [hrun] at hlengths
    cases hlengths
  | ok history =>
    rw [hrun] at hlengths
    obtain ⟨groups, hcontainers, -, hbytes⟩ := hwithin history hrun
    exact ⟨history, groups, rfl, hcontainers, Except.ok.inj hlengths, hbytes⟩

end Response

end Mt5Open.Native.Ticks

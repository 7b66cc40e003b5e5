import Mt5Open.Native.Bars
import Mt5Open.Native.BitMachine

/-!
# The bar decoder with its arithmetic

The decoder here computes the times and the prices of bars in `i128`, and it reads bits by
their index.  What does not fit is a panic.

A token adds at most a product of 64 bits to the time, and it takes a bit.  A bar adds at
most a product of 96 bits to the open, and a container holds a million of them.  Over
bytes whose length fits 32 bits neither leaves `i128`, so the decoder panics nowhere and
answers as `decodeBarHistory` does.
-/

namespace Mt5Open.Native.Bars.Machine

open Lib Checked
open Decoder (ofResult rounds)
open BitReader (remaining)
open BitReader.Machine

section Container

-- `ratio p d` is the price `p` divided by ten to the power of `d`.
variable (ratio : Int → Nat → F64) (limit : Int) (digits : Nat)

def readSpread (tag : Int) (s : BarState) : Step Int :=
  if (tag = 0 ∧ s.anchorFlags &&& 1 ≠ 0) ∨ (tag = 1 ∧ s.spreadOn) then signedMagnitude 32
  else pure 0

def readRealVolume (tag : Int) (s : BarState) : Step Nat :=
  if (tag = 0 ∧ s.anchorFlags &&& 2 ≠ 0) ∨ (tag = 1 ∧ s.realOn) then packedNat 64 else pure 0

/-- One bar of an anchor (tag 0) or of a run (tag 1). -/
def readBar (tag : Int) (s : BarState) : Step BarState := do
  let multiplier := if tag = 0 then 1 else limit
  let high ← packed 32 true
  let high ← ofResult (i128 (multiplier * high))
  let low ← packed 32 true
  let low ← ofResult (i128 (multiplier * low))
  let close ← signedMagnitude (if tag = 0 then 32 else 64)
  let close ← ofResult (i128 (multiplier * close))
  let tickVolume ← packedNat 64
  let spread ← readSpread tag s
  let realVolume ← readRealVolume tag s
  let _ ← Decoder.each (fun _ => packed 64 false) (extensionBits s.anchorFlags)
  if ¬(-2 ^ 63 ≤ s.time ∧ s.time < 2 ^ 63) then fail "bar timestamp overflow"
  else
    let top ← ofResult (i128 (s.opening + asI32 high))
    let bottom ← ofResult (i128 (s.opening - asI32 low))
    let last ← ofResult (i128 (s.opening + asI32 close))
    return {
      s with
      close := asI32 close
      bars := s.bars ++ [{
        time := s.time
        opening := ratio s.opening digits
        high := ratio top digits
        low := ratio bottom digits
        close := ratio last digits
        tickVolume
        realVolume
        spread := asI32 spread }] }

/-- One round of the loop over a run. -/
def runBar (tag : Int) (s : BarState) : Step BarState := do
  if tag = 1 then
    let time ← ofResult (i128 (s.time + 60))
    let delta ← signedMagnitude 64
    let product ← ofResult (i128 (limit * delta))
    let change ← ofResult (i128 (product + s.close))
    let opening ← ofResult (i128 (s.opening + change))
    readBar ratio limit digits tag { s with time, opening }
  else readBar ratio limit digits tag s

/-- The loop over a run. -/
def runBars (tag : Int) : Nat → BarState → Step BarState
  | 0, s => pure s
  | n + 1, s => do
    let s ← runBar ratio limit digits tag s
    runBars tag n s

/-- The fields of an anchor before its bar. -/
def readAnchor (s : BarState) : Step BarState := do
  let anchorFlags ← packedNat 64
  if anchorFlags &&& 4 ≠ 0 then fail "unsupported bar anchor flag 4"
  else
    let time ← packed 64 true
    let opening ← signedMagnitude 64
    return {
      s with
      time
      opening := asI32 opening
      anchorFlags
      spreadOn := s.spreadOn || anchorFlags &&& 1 != 0
      realOn := s.realOn || anchorFlags &&& 2 != 0
      anchored := true }

/-- The bars that a tag announces. -/
def readRun (tag : Int) (s : BarState) : Step (BarState × Int) := do
  if tag = 0 then
    let s ← readAnchor s
    return (s, 1)
  else if tag = 1 ∧ s.anchored then
    let run ← packed 64 true
    return (s, run)
  else fail "invalid bar tag or missing anchor"

/-- What stands behind a tag. -/
def tagged (count : Nat) (tag : Int) (s : BarState) : Step BarState := do
  if tag = 2 then
    if ¬s.anchored then fail "bar skip before anchor"
    else
      let minutes ← packed 64 true
      let gap ← ofResult (i128 (60 * minutes))
      let time ← ofResult (i128 (s.time + gap))
      return { s with time }
  else
    let (s, run) ← readRun tag s
    if run = 0 ∧ tag = 1 then return s
    else if run ≤ 0 then fail "bar run exceeds declared count"
    else
      let left ← ofResult (sub count s.bars.length)
      if left < run.toNat % 2 ^ 64 then fail "bar run exceeds declared count"
      else runBars ratio limit digits tag run.toNat s

/-- One round of the loop in `container`, for a token. -/
def token (count : Nat) (s : BarState) : Step BarState := do
  let tag ← packed 64 true
  tagged ratio limit digits count tag s

/-- The loop in `container`, until there are as many bars as the header declares. -/
def barRound (count : Nat) (s : BarState) : Step (BarState ⊕ List Bar) := do
  if s.bars.length < count then
    let s ← token ratio limit digits count s
    return .inl s
  else return .inr s.bars

theorem shrinks_readBar (tag : Int) (s : BarState) :
    Decoder.Shrinks remaining (readBar ratio limit digits tag s) := by
  refine (shrinks_packed _ _).bind fun _ => (Decoder.Shrinks.ofResult _).bind fun high => ?_
  refine (shrinks_packed _ _).bind fun _ => (Decoder.Shrinks.ofResult _).bind fun low => ?_
  refine (shrinks_signedMagnitude _).bind fun _ => (Decoder.Shrinks.ofResult _).bind fun close => ?_
  refine (shrinks_packedNat _).bind fun tickVolume => ?_
  refine Decoder.Shrinks.bind ((shrinks_signedMagnitude _).ite (.pure _)) fun spread => ?_
  refine Decoder.Shrinks.bind ((shrinks_packedNat _).ite (.pure _)) fun realVolume => ?_
  refine (Decoder.Shrinks.each (fun _ => shrinks_packed _ _) _).bind fun extensions => ?_
  refine (Decoder.Shrinks.raise _).ite ((Decoder.Shrinks.ofResult _).bind fun top => ?_)
  refine (Decoder.Shrinks.ofResult _).bind fun _ => ?_
  exact (Decoder.Shrinks.ofResult _).bind fun _ => .pure _

theorem shrinks_runBar (tag : Int) (s : BarState) :
    Decoder.Shrinks remaining (runBar ratio limit digits tag s) := by
  refine Decoder.Shrinks.ite ((Decoder.Shrinks.ofResult _).bind fun time => ?_)
    (shrinks_readBar _ _ _ _ _)
  refine (shrinks_signedMagnitude _).bind fun delta => (Decoder.Shrinks.ofResult _).bind fun _ => ?_
  exact (Decoder.Shrinks.ofResult _).bind fun _ => (Decoder.Shrinks.ofResult _).bind fun _ =>
    shrinks_readBar _ _ _ _ _

theorem shrinks_runBars (tag : Int) (n : Nat) (s : BarState) :
    Decoder.Shrinks remaining (runBars ratio limit digits tag n s) := by
  induction n generalizing s with
  | zero => exact .pure s
  | succ n ih => exact (shrinks_runBar _ _ _ _ _).bind ih

theorem shrinks_readAnchor (s : BarState) : Decoder.Shrinks remaining (readAnchor s) :=
  (shrinks_packedNat _).bind fun _ => (Decoder.Shrinks.raise _).ite
    ((shrinks_packed _ _).bind fun _ => (shrinks_signedMagnitude _).bind fun _ => .pure _)

theorem shrinks_readRun (tag : Int) (s : BarState) : Decoder.Shrinks remaining (readRun tag s) :=
  ((shrinks_readAnchor s).bind fun _ => .pure _).ite
    (((shrinks_packed _ _).bind fun _ => .pure _).ite (.raise _))

theorem shrinks_tagged (count : Nat) (tag : Int) (s : BarState) :
    Decoder.Shrinks remaining (tagged ratio limit digits count tag s) := by
  refine Decoder.Shrinks.ite ((Decoder.Shrinks.raise _).ite ?_) ?_
  · exact (shrinks_packed _ _).bind fun _ => (Decoder.Shrinks.ofResult _).bind fun _ =>
      (Decoder.Shrinks.ofResult _).bind fun _ => .pure _
  · refine (shrinks_readRun tag s).bind fun _ => (Decoder.Shrinks.pure _).ite ?_
    exact (Decoder.Shrinks.raise _).ite ((Decoder.Shrinks.ofResult _).bind fun _ =>
      (Decoder.Shrinks.raise _).ite (shrinks_runBars _ _ _ _ _ _))

/-- A token takes at least one bit. -/
theorem token_remaining {count : Nat} {s next : BarState} {r t : BitReader}
    (h : token ratio limit digits count s r = .ok (next, t)) : t.remaining < r.remaining := by
  obtain ⟨tag, middle, htag, hrest⟩ := Decoder.Shrinks.le_of_bind h fun tag =>
    shrinks_tagged ratio limit digits count tag s
  exact Nat.lt_of_le_of_lt hrest (packed_remaining htag)

theorem barRound_remaining {count : Nat} {s next : BarState} {r t : BitReader}
    (h : barRound ratio limit digits count s r = .ok (.inl next, t)) :
    t.remaining < r.remaining := by
  unfold barRound at h
  split at h
  · obtain ⟨u, last, htoken, hpure⟩ := Decoder.bind_eq_ok.mp h
    obtain ⟨hnext, rfl⟩ := Decoder.pure_eq_ok.mp hpure
    exact token_remaining ratio limit digits htoken
  · cases (Decoder.pure_eq_ok.mp h).1

/-- The loop in `container`. -/
def barLoop (count : Nat) : Loop (BarState × BitReader) (Except Fault (List Bar × BitReader)) :=
  rounds remaining (barRound ratio limit digits count) fun _ _ _ _ h =>
    barRound_remaining ratio limit digits h

end Container

section Response

variable (ratio : Int → Nat → F64)

/-- A step over the bytes of a response. -/
abbrev Scan := Decoder Fault Bytes

/-- A step that reads bytes and computes nothing. -/
def reading {α : Type} (x : Reader α) : Scan α := fun bytes => Fault.ofResult (x bytes)

/-- The bars behind a header. -/
def containerBars (h : Record 129) : Scan (List Bar) := do
  let size := h.i32 72 (Nat.le_add_right _ 53)
  let bits := h.i32 80 (Nat.le_add_right _ 45)
  let count := h.i32 84 (Nat.le_add_right _ 41)
  let digits := LittleEndian.decodeInt (h.field 93 2 (Nat.le_add_right _ 34))
  let flags := LittleEndian.decode (h.field 95 2 (Nat.le_add_right _ 32))
  if size < 0 ∨ bits < 0 ∨ count < 0 ∨ 1000000 < count ∨ ¬(0 ≤ digits ∧ digits ≤ 12) then
    reading (Reader.fail "invalid bar header bounds")
  else if flags ≠ 0 then reading (Reader.fail s!"unsupported inner bar flags {flags}")
  else
    let data ← reading (Reader.take size.toNat)
    let k := LittleEndian.decode (h.field 88 1 (Nat.le_add_right _ 40))
    let b ← ofResult (withLimit data bits.toNat k)
    let limit := h.i32 97 (Nat.le_add_right _ 28) % 2 ^ 32
    let (bars, _) ← ofResult ((barLoop ratio limit digits.toNat count.toNat).run ({}, b))
    return bars

/-- `bars::container`. -/
def container (symbol : String) : Scan (List Bar) := do
  let bytes ← reading (Reader.take 129)
  let h ← reading (Decoder.ofResult (Record.new bytes 129))
  if LittleEndian.decodeInt (h.field 0 2 (Nat.le_add_right _ 127)) ≠ 129 ∨
      h.text 2 64 (Nat.le_add_right _ 63) ≠ symbol then
    reading (Reader.fail "bar header does not match request symbol")
  else containerBars ratio h

/-- The part of a reply behind its subtype. -/
def replyBody (subtype : UInt8) : Scan BarHistory := do
  let name ← reading (Reader.take 64)
  let r ← reading (Decoder.ofResult (Record.new name 64))
  let symbol := r.text 0 64 (Nat.le_add_right _ 0)
  let status ← reading Reader.i32
  let containers ← reading (containerCount subtype status)
  let bars ← Decoder.times (container ratio symbol) containers
  return { symbol, bars := ((Keyed.empty Bar.time).insertAll bars.flatten).items }

/-- One round of the loop in `decode_bar_history`. -/
def reply : Scan BarHistory := do
  let subtype ← reading Reader.byte
  replyBody ratio subtype

theorem reading_eq_ok {α : Type} {x : Reader α} {bytes rest : Bytes} {a : α} :
    reading x bytes = .ok (a, rest) ↔ x bytes = .ok (a, rest) := Fault.ofResult_eq_ok

theorem shrinks_reading {α : Type} {m : Bytes → Nat} {x : Reader α} (h : Decoder.Shrinks m x) :
    Decoder.Shrinks m (reading x) :=
  fun s a t hrun => h s a t (reading_eq_ok.mp hrun)

theorem shrinks_containerBars (h : Record 129) :
    Decoder.Shrinks List.length (containerBars ratio h) := by
  refine (shrinks_reading (Decoder.Shrinks.raise _)).ite
    ((shrinks_reading (Decoder.Shrinks.raise _)).ite ?_)
  refine (shrinks_reading (Reader.shrinks_take _)).bind fun _ => ?_
  refine (Decoder.Shrinks.ofResult _).bind fun _ => ?_
  exact (Decoder.Shrinks.ofResult _).bind fun _ => .pure _

theorem shrinks_container (symbol : String) :
    Decoder.Shrinks List.length (container ratio symbol) :=
  (shrinks_reading (Reader.shrinks_take _)).bind fun _ =>
    (shrinks_reading (Decoder.Shrinks.ofResult _)).bind fun h =>
      (shrinks_reading (Decoder.Shrinks.raise _)).ite (shrinks_containerBars ratio h)

theorem shrinks_replyBody (subtype : UInt8) :
    Decoder.Shrinks List.length (replyBody ratio subtype) := by
  refine (shrinks_reading (Reader.shrinks_take 64)).bind fun name => ?_
  refine (shrinks_reading (Decoder.Shrinks.ofResult _)).bind fun r => ?_
  refine (shrinks_reading ((Reader.shrinks_take 4).bind fun _ => .pure _)).bind fun status => ?_
  refine (shrinks_reading (shrinks_containerCount subtype status)).bind fun containers => ?_
  exact ((shrinks_container ratio _).times containers).bind fun _ => .pure _

/-- A reply takes at least one byte. -/
theorem reply_shorter {history : BarHistory} {bytes rest : Bytes}
    (h : reply ratio bytes = .ok (history, rest)) : rest.length < bytes.length := by
  obtain ⟨subtype, middle, hsubtype, hrest⟩ :=
    Decoder.Shrinks.le_of_bind h (shrinks_replyBody ratio)
  exact Nat.lt_of_le_of_lt hrest (Reader.byte_shorter (reading_eq_ok.mp hsubtype))

/-- The loop of `decode_bar_history`, for one reply. -/
def replyRound (results : List BarHistory) : Scan (List BarHistory ⊕ List BarHistory) := do
  let remaining ← get
  if remaining = [] then return .inr results
  else
    let history ← reply ratio
    return .inl (results ++ [history])

theorem replyRound_shorter {results next : List BarHistory} {bytes rest : Bytes}
    (h : replyRound ratio results bytes = .ok (.inl next, rest)) :
    rest.length < bytes.length := by
  obtain ⟨_, _, hget, hrest⟩ := Decoder.bind_eq_ok.mp h
  cases Except.ok.inj hget
  split at hrest
  · cases (Decoder.pure_eq_ok.mp hrest).1
  · obtain ⟨history, last, hreply, hpure⟩ := Decoder.bind_eq_ok.mp hrest
    obtain ⟨-, rfl⟩ := Decoder.pure_eq_ok.mp hpure
    exact reply_shorter ratio hreply

/-- The loop of `decode_bar_history`. -/
def replyLoop : Loop (List BarHistory × Bytes) (Except Fault (List BarHistory × Bytes)) :=
  rounds List.length (replyRound ratio) fun _ _ _ _ h => replyRound_shorter ratio h

/-- `decode_bar_history`. -/
def decodeBarHistory (bytes : Bytes) : Except Fault (List BarHistory) :=
  ((replyLoop ratio).run ([], bytes)).map Prod.fst

end Response

/-! ## Bounds -/

section Bounds

variable {ratio : Int → Nat → F64} {limit : Int} {digits : Nat}

/-- How far the variables of the loop have come: a token adds less than `2 ^ 70` to the
time, and a bar less than `2 ^ 97` to the open. -/
structure Within (s : BarState) (r : BitReader) : Prop where
  small : Small r
  time_le : s.time.natAbs + 2 ^ 70 * r.remaining ≤ 2 ^ 110
  opening_le : s.opening.natAbs ≤ 2 ^ 97 * (s.bars.length + 1)
  close_le : s.close.natAbs ≤ 2 ^ 31

theorem asI32_natAbs_le (x : Int) : (asI32 x).natAbs ≤ 2 ^ 31 := by
  have hlow : -((2 : Int) ^ 32 / 2) ≤ asI32 x := Int.le_bmod (by decide)
  have hhigh : asI32 x < ((2 : Int) ^ 32 + 1) / 2 := Int.bmod_lt (by decide)
  omega

theorem add_asI32_lt {opening : Int} (h : opening.natAbs ≤ 2 ^ 120) (x : Int) :
    (opening + asI32 x).natAbs < 2 ^ 127 := by
  have hx := asI32_natAbs_le x
  omega

theorem sub_asI32_lt {opening : Int} (h : opening.natAbs ≤ 2 ^ 120) (x : Int) :
    (opening - asI32 x).natAbs < 2 ^ 127 := by
  have hx := asI32_natAbs_le x
  omega

theorem mul_natAbs_le {a b : Int} {m n : Nat} (ha : a.natAbs ≤ m) (hb : b.natAbs ≤ n) :
    (a * b).natAbs ≤ m * n := by
  rw [Int.natAbs_mul]
  exact Nat.mul_le_mul ha hb

theorem readSpread_refines {tag : Int} {s : BarState} {r : BitReader} (hr : Small r) :
    Refines (readSpread tag s) (Bars.readSpread tag s) r
      fun _ t => Small t ∧ t.remaining ≤ r.remaining :=
  .ite (fun _ => (signedMagnitude_refines hr 32).mono fun _ _ ht => ⟨ht.2.1, ht.2.2.le⟩)
    fun _ => .pure ⟨hr, Nat.le_refl _⟩

theorem readRealVolume_refines {tag : Int} {s : BarState} {r : BitReader} (hr : Small r) :
    Refines (readRealVolume tag s) (Bars.readRealVolume tag s) r
      fun _ t => Small t ∧ t.remaining ≤ r.remaining :=
  .ite (fun _ => (packedNat_refines hr 64).mono fun _ _ ht => ⟨ht.1, ht.2.le⟩)
    fun _ => .pure ⟨hr, Nat.le_refl _⟩

/-- What a bar adds to the state: the time and the open stay. -/
structure Added (s next : BarState) : Prop where
  time_eq : next.time = s.time
  opening_eq : next.opening = s.opening
  close_le : next.close.natAbs ≤ 2 ^ 31
  length_eq : next.bars.length = s.bars.length + 1

theorem readBar_refines (hlimit : limit.natAbs ≤ 2 ^ 32) {tag : Int} {s : BarState}
    {r : BitReader} (hr : Small r) (hopening : s.opening.natAbs ≤ 2 ^ 120) :
    Refines (readBar ratio limit digits tag s) (Bars.readBar ratio limit digits tag s) r
      fun next t => Added s next ∧ Small t ∧ t.remaining < r.remaining := by
  have hmultiplier : (if tag = 0 then 1 else limit).natAbs ≤ 2 ^ 32 := by
    split
    · decide
    · exact hlimit
  refine (packed_refines hr 32 true).bind fun high r₁ hhigh => ?_
  obtain ⟨hhigh, -, h₁, hrest₁⟩ := hhigh
  refine .checked (i128_of_natAbs_lt (Nat.lt_of_le_of_lt (mul_natAbs_le hmultiplier hhigh)
    (by decide))) ?_
  refine (packed_refines h₁ 32 true).bind fun low r₂ hlow => ?_
  obtain ⟨hlow, -, h₂, hrest₂⟩ := hlow
  refine .checked (i128_of_natAbs_lt (Nat.lt_of_le_of_lt (mul_natAbs_le hmultiplier hlow)
    (by decide))) ?_
  refine (signedMagnitude_refines h₂ _).bind fun close r₃ hclose => ?_
  obtain ⟨hclose, h₃, hrest₃⟩ := hclose
  have hclose : close.natAbs ≤ 2 ^ 64 :=
    Nat.le_trans hclose.le (Nat.pow_le_pow_right (by decide) (by split <;> decide))
  refine .checked (i128_of_natAbs_lt (Nat.lt_of_le_of_lt (mul_natAbs_le hmultiplier hclose)
    (by decide))) ?_
  refine (packedNat_refines h₃ 64).bind fun tickVolume r₄ h₄ => ?_
  obtain ⟨h₄, hrest₄⟩ := h₄
  refine (readSpread_refines h₄).bind fun spread r₅ h₅ => ?_
  obtain ⟨h₅, hrest₅⟩ := h₅
  refine (readRealVolume_refines h₅).bind fun realVolume r₆ h₆ => ?_
  obtain ⟨h₆, hrest₆⟩ := h₆
  have hextensions : Refines (Decoder.each (fun _ => packed 64 false) (extensionBits s.anchorFlags))
      (Decoder.each (fun _ => BitReader.packed 64 false) (extensionBits s.anchorFlags)) r₆
      fun _ t => Small t ∧ t.remaining ≤ r₆.remaining :=
    Decoder.Refines.each (I := fun t => Small t ∧ t.remaining ≤ r₆.remaining)
      (fun _ u hu => (packed_refines hu.1 64 false).mono fun _ _ ht =>
        ⟨ht.2.2.1, ht.2.2.2.le.trans hu.2⟩) _ ⟨h₆, Nat.le_refl _⟩
  refine hextensions.bind fun _ r₇ h₇ => ?_
  obtain ⟨h₇, hrest₇⟩ := h₇
  refine .ite (fun _ => .raise _) fun _ => ?_
  have hsum := add_asI32_lt hopening
  have hdifference := sub_asI32_lt hopening
  refine .checked (i128_of_natAbs_lt (hsum _)) (.checked (i128_of_natAbs_lt (hdifference _))
    (.checked (i128_of_natAbs_lt (hsum _)) (.pure ⟨?_, h₇, by omega⟩)))
  exact ⟨rfl, rfl, asI32_natAbs_le _, List.length_append⟩

theorem runBar_refines (hlimit : limit.natAbs ≤ 2 ^ 32) {tag : Int} {s : BarState}
    {r : BitReader} (hs : Within s r) (hbars : s.bars.length < 1000000) :
    Refines (runBar ratio limit digits tag s) (Bars.runBar ratio limit digits tag s) r
      fun next t => Within next t ∧ next.bars.length = s.bars.length + 1 := by
  obtain ⟨hr, htime, hopening, hclose⟩ := hs
  refine .ite (fun htag => ?_) fun htag => ?_
  · refine .checked (i128_of_natAbs_lt (by omega)) ?_
    refine (signedMagnitude_refines hr 64).bind fun delta t ht => ?_
    obtain ⟨hdelta, ht, hrest⟩ := ht
    have hproduct := mul_natAbs_le hlimit hdelta.le
    refine .checked (i128_of_natAbs_lt (Nat.lt_of_le_of_lt hproduct (by decide))) ?_
    refine .checked (i128_of_natAbs_lt (by omega)) (.checked (i128_of_natAbs_lt (by omega)) ?_)
    refine (readBar_refines hlimit ht (by dsimp only; omega)).mono fun next u hu => ?_
    obtain ⟨⟨htime', hopening', hclose', hlength⟩, hu, hrest'⟩ := hu
    dsimp only at htime' hopening' hlength
    refine ⟨⟨hu, ?_, ?_, hclose'⟩, hlength⟩
    · rw [htime']
      omega
    · rw [hopening', hlength]
      omega
  · refine (readBar_refines hlimit hr (by omega)).mono fun next u hu => ?_
    obtain ⟨⟨htime', hopening', hclose', hlength⟩, hu, hrest⟩ := hu
    refine ⟨⟨hu, ?_, ?_, hclose'⟩, hlength⟩
    · rw [htime']
      omega
    · rw [hopening', hlength]
      omega

theorem runBars_refines (hlimit : limit.natAbs ≤ 2 ^ 32) {tag : Int} {n : Nat} {s : BarState}
    {r : BitReader} (hs : Within s r) (hbars : s.bars.length + n ≤ 1000000) :
    Refines (runBars ratio limit digits tag n s) (Bars.runBars ratio limit digits tag n s) r
      fun next t => Within next t := by
  induction n generalizing s r with
  | zero => exact .pure hs
  | succ n ih =>
    refine (runBar_refines hlimit hs (by omega)).bind fun next t ht => ?_
    obtain ⟨hnext, hlength⟩ := ht
    exact ih hnext (by omega)

theorem readAnchor_refines {s : BarState} {r : BitReader} (hs : Within s r) :
    Refines (readAnchor s) (Bars.readAnchor s) r
      fun next t => Within next t ∧ next.bars = s.bars := by
  obtain ⟨hr, htime, hopening, hclose⟩ := hs
  refine (packedNat_refines hr 64).bind fun flags t ht => ?_
  obtain ⟨ht, hrest⟩ := ht
  refine .ite (fun _ => .raise _) fun _ => ?_
  refine (packed_refines ht 64 true).bind fun time u hu => ?_
  obtain ⟨htime', -, hu, hrest'⟩ := hu
  refine (signedMagnitude_refines hu 64).bind fun opening v hv => ?_
  obtain ⟨-, hv, hrest''⟩ := hv
  have hopening' := asI32_natAbs_le opening
  exact .pure ⟨⟨hv, by dsimp only; omega, by dsimp only; omega, hclose⟩, rfl⟩

theorem readRun_refines {tag : Int} {s : BarState} {r : BitReader} (hs : Within s r) :
    Refines (readRun tag s) (Bars.readRun tag s) r
      fun next t => Within next.1 t ∧ next.1.bars = s.bars ∧ next.2 < 2 ^ 64 := by
  refine .ite (fun _ => ?_) fun _ => .ite (fun _ => ?_) fun _ => .raise _
  · refine (readAnchor_refines hs).bind fun next t ht => .pure ?_
    exact ⟨ht.1, ht.2, (by decide : (1 : Int) < 2 ^ 64)⟩
  · obtain ⟨hr, htime, hopening, hclose⟩ := hs
    refine (packed_refines hr 64 true).bind fun run t ht => .pure ?_
    obtain ⟨-, hrun, ht, hrest⟩ := ht
    exact ⟨⟨ht, by dsimp only; omega, hopening, hclose⟩, rfl, hrun⟩

theorem tagged_refines (hlimit : limit.natAbs ≤ 2 ^ 32) {count : Nat} {tag : Int} {s : BarState}
    {r : BitReader} (hs : Within s r) (hcount : count ≤ 1000000) (hbars : s.bars.length < count) :
    Refines (tagged ratio limit digits count tag s) (Bars.tagged ratio limit digits count tag s) r
      fun next t => Within next t := by
  refine .ite (fun _ => .ite (fun _ => .raise _) fun _ => ?_) fun _ => ?_
  · obtain ⟨hr, htime, hopening, hclose⟩ := hs
    refine (packed_refines hr 64 true).bind fun minutes t ht => ?_
    obtain ⟨hminutes, -, ht, hrest⟩ := ht
    refine .checked (i128_of_natAbs_lt (by omega)) (.checked (i128_of_natAbs_lt (by omega)) ?_)
    exact .pure ⟨ht, by dsimp only; omega, hopening, hclose⟩
  · refine (readRun_refines hs).bind fun next t ht => ?_
    obtain ⟨s', run⟩ := next
    obtain ⟨ht, hsame, hrun⟩ := ht
    dsimp only at ht hsame hrun ⊢
    refine .ite (fun _ => .pure ht) fun _ => ?_
    by_cases hpos : run ≤ 0
    · rw [if_pos hpos, if_pos (.inl hpos)]
      exact .raise _
    · rw [if_neg hpos]
      refine .checked (sub_of_le (by rw [hsame]; omega)) ?_
      rw [Nat.mod_eq_of_lt (by omega)]
      by_cases hmany : count - s'.bars.length < run.toNat
      · rw [if_pos hmany, if_pos (.inr hmany)]
        exact .raise _
      · rw [if_neg hmany, if_neg (not_or.mpr ⟨hpos, hmany⟩)]
        exact runBars_refines hlimit ht (by rw [hsame] at hmany ⊢; omega)

/-- A token keeps the variables within the bounds. -/
theorem token_refines (hlimit : limit.natAbs ≤ 2 ^ 32) {count : Nat} {s : BarState}
    {r : BitReader} (hs : Within s r) (hcount : count ≤ 1000000) (hbars : s.bars.length < count) :
    Refines (token ratio limit digits count s) (Bars.token ratio limit digits count s) r
      fun next t => Within next t := by
  obtain ⟨hr, htime, hopening, hclose⟩ := hs
  refine (packed_refines hr 64 true).bind fun tag t ht => ?_
  obtain ⟨-, -, ht, hrest⟩ := ht
  exact tagged_refines hlimit ⟨ht, by omega, hopening, hclose⟩ hcount hbars

theorem barLoop_eq (hlimit : limit.natAbs ≤ 2 ^ 32) {count : Nat} (hcount : count ≤ 1000000)
    {s : BarState} {r : BitReader} (hs : Within s r) :
    ((barLoop ratio limit digits count).run (s, r)).map Prod.fst =
      Fault.ofResult ((Bars.barLoop ratio limit digits count).run (s, r)) := by
  refine Loop.run_sim (barLoop ratio limit digits count) (Bars.barLoop ratio limit digits count)
    (R := fun s t => t = s ∧ Within s.1 s.2)
    (S := fun x y => x.map Prod.fst = Fault.ofResult y) ?_ ⟨rfl, hs⟩
  rintro ⟨s, r⟩ _ ⟨rfl, hs⟩
  dsimp only at hs
  by_cases hmore : s.bars.length < count
  · have htoken : Refines (token ratio limit digits count s) _ r _ :=
      token_refines hlimit hs hcount hmore
    rw [Refines, Decoder.Refines] at htoken
    cases hrun : Bars.token ratio limit digits count s r with
    | error e =>
      rw [hrun] at htoken
      have hround : barRound ratio limit digits count s r = .error (.rejected e) := by
        rw [barRound, if_pos hmore]
        exact Decoder.bind_of_error htoken
      refine .inl ⟨_, .error e, Decoder.rounds_of_error hround, ?_, rfl⟩
      simp only [Bars.barLoop, if_pos hmore, hrun]
    | ok p =>
      obtain ⟨next, t⟩ := p
      rw [hrun] at htoken
      obtain ⟨_, hmachine, rfl, hnext⟩ := htoken
      have hround : barRound ratio limit digits count s r = .ok (.inl next, t) := by
        rw [barRound, if_pos hmore]
        exact Decoder.bind_of_ok hmachine
      refine .inr ⟨_, (next, t), Decoder.rounds_of_next hround, ?_, rfl, hnext⟩
      simp only [Bars.barLoop, if_pos hmore, hrun]
  · have hround : barRound ratio limit digits count s r = .ok (.inr s.bars, r) := by
      rw [barRound, if_neg hmore]
      rfl
    refine .inl ⟨_, .ok s.bars, Decoder.rounds_of_stop hround, ?_, rfl⟩
    simp only [Bars.barLoop, if_neg hmore]

end Bounds

/-! ## The decoder answers as `decodeBarHistory` does -/

section Follows

variable {ratio : Int → Nat → F64} {α β : Type} {bytes : Bytes}

/-- The decoder and the reader agree from these bytes on. -/
abbrev Follows (x : Scan α) (y : Reader α) (bytes : Bytes) (Q : α → Bytes → Prop) : Prop :=
  Decoder.Refines Fault.rejected (fun bytes => bytes) x y bytes Q

theorem reading_follows (x : Reader α) :
    Follows (reading x) x bytes fun a rest => x bytes = .ok (a, rest) := by
  rw [Follows, Decoder.Refines, reading]
  cases x bytes with
  | error e => rfl
  | ok p => exact ⟨p.2, rfl, rfl, rfl⟩

theorem reading_length {x : Reader α} (hx : Decoder.Shrinks List.length x)
    (hbytes : bytes.length < 2 ^ 32) :
    Follows (reading x) x bytes fun _ rest => rest.length < 2 ^ 32 :=
  (reading_follows x).mono fun a rest hrun => Nat.lt_of_le_of_lt (hx bytes a rest hrun) hbytes

/-- The result of a loop, without the state that it ends in. -/
theorem ofResult_fst_follows {r : Except Fault (α × β)} {r' : Result α}
    (h : r.map Prod.fst = Fault.ofResult r') :
    Follows (do
      let (a, _) ← ofResult r
      return a) (Decoder.ofResult r') bytes fun _ rest => rest = bytes := by
  cases r with
  | error fault =>
    cases r' with
    | error e =>
      cases h
      exact .raise e
    | ok a => cases h
  | ok p =>
    cases r' with
    | error e => cases h
    | ok a =>
      cases h
      exact .pure rfl

theorem withLimit_eq {data : Bytes} (hdata : data.length < 2 ^ 32) (limit k : Nat) :
    withLimit data limit k = Fault.ofResult (BitReader.withLimit data limit k) := by
  rw [withLimit, mul_of_lt (by omega)]
  rfl

/-- The bounds hold in front of the first token. -/
theorem within_withLimit {data : Bytes} (hdata : data.length < 2 ^ 32) {limit k : Nat}
    {b : BitReader} (h : BitReader.withLimit data limit k = .ok b) : Within {} b := by
  unfold BitReader.withLimit at h
  split at h
  · rename_i hlimit
    cases Except.ok.inj h
    refine ⟨?_, ?_, Nat.zero_le _, Nat.zero_le _⟩
    · show 8 * data.length < 2 ^ 40
      omega
    · show 0 + 2 ^ 70 * (limit - 0) ≤ 2 ^ 110
      omega
  · cases h

theorem containerBars_follows (h : Record 129) (hbytes : bytes.length < 2 ^ 32) :
    Follows (containerBars ratio h) (Bars.containerBars ratio h) bytes fun _ _ => True := by
  refine .ite (fun _ => .raise _) fun hheader => .ite (fun _ => .raise _) fun _ => ?_
  refine (reading_follows _).bind fun data rest htake => ?_
  obtain ⟨rfl, hsize⟩ := Reader.take_eq_ok.mp htake
  have hdata : data.length < 2 ^ 32 := by
    rw [List.length_append] at hbytes
    omega
  have hlimit : (h.i32 97 % 2 ^ 32).natAbs ≤ 2 ^ 32 := by omega
  have hreader (limit k : Nat) : Follows (ofResult (withLimit data limit k))
      (Decoder.ofResult (BitReader.withLimit data limit k)) rest fun b _ => Within {} b :=
    .ofResult (withLimit_eq hdata limit k) fun b hb => within_withLimit hdata hb
  refine (hreader _ _).bind fun b rest hb => ?_
  exact (ofResult_fst_follows (barLoop_eq hlimit (by omega) hb)).mono fun _ _ _ => trivial

/-- A container is read, and the bytes behind it are not too many. -/
theorem container_follows (symbol : String) (hbytes : bytes.length < 2 ^ 32) :
    Follows (container ratio symbol) (Bars.container ratio symbol) bytes
      fun _ rest => rest.length < 2 ^ 32 := by
  have hread : Follows (container ratio symbol) (Bars.container ratio symbol) bytes
      fun _ _ => True := by
    refine (reading_length (Reader.shrinks_take 129) hbytes).bind fun raw rest hrest => ?_
    refine (reading_length (Decoder.Shrinks.ofResult _) hrest).bind fun h rest' hrest' => ?_
    exact .ite (fun _ => .raise _) fun _ => containerBars_follows h hrest'
  refine hread.self.mono fun bars rest hrun => ?_
  exact Nat.lt_of_le_of_lt (shrinks_container ratio symbol _ _ _ hrun.1) hbytes

theorem reply_follows (hbytes : bytes.length < 2 ^ 32) :
    Follows (reply ratio) (Bars.reply ratio) bytes fun _ rest => rest.length < 2 ^ 32 := by
  refine (reading_length ((Reader.shrinks_take 1).bind fun _ => .pure _) hbytes).bind
    fun subtype rest₁ h₁ => ?_
  refine (reading_length (Reader.shrinks_take 64) h₁).bind fun name rest₂ h₂ => ?_
  refine (reading_length (Decoder.Shrinks.ofResult _) h₂).bind fun r rest₃ h₃ => ?_
  refine (reading_length ((Reader.shrinks_take 4).bind fun _ => .pure _) h₃).bind
    fun status rest₄ h₄ => ?_
  refine (reading_length (shrinks_containerCount subtype status) h₄).bind
    fun containers rest₅ h₅ => ?_
  refine (Decoder.Refines.times (I := fun bytes => bytes.length < 2 ^ 32)
    (fun bytes hbytes => container_follows _ hbytes) containers h₅).bind fun bars rest₆ h₆ => ?_
  exact .pure h₆

theorem replyLoop_eq {results : List BarHistory} (hbytes : bytes.length < 2 ^ 32) :
    ((replyLoop ratio).run (results, bytes)).map Prod.fst =
      Fault.ofResult ((Bars.replyLoop ratio).run (results, bytes)) := by
  refine Loop.run_sim (replyLoop ratio) (Bars.replyLoop ratio)
    (R := fun s t => t = s ∧ s.2.length < 2 ^ 32)
    (S := fun x y => x.map Prod.fst = Fault.ofResult y) ?_ ⟨rfl, hbytes⟩
  rintro ⟨results, bytes⟩ _ ⟨rfl, hbytes⟩
  dsimp only at hbytes
  by_cases hend : bytes = []
  · have hround : replyRound ratio results bytes = .ok (.inr results, bytes) := by
      rw [replyRound]
      exact congrFun (if_pos hend) bytes
    refine .inl ⟨_, .ok results, Decoder.rounds_of_stop hround, ?_, rfl⟩
    simp only [Bars.replyLoop, if_pos hend]
  · have hstep : replyRound ratio results bytes = (do
        let history ← reply ratio
        return .inl (results ++ [history]) : Scan _) bytes := by
      rw [replyRound]
      exact congrFun (if_neg hend) bytes
    have hreply : Follows (reply ratio) _ bytes _ := reply_follows hbytes
    rw [Follows, Decoder.Refines] at hreply
    cases hrun : Bars.reply ratio bytes with
    | error e =>
      rw [hrun] at hreply
      have hround := hstep.trans (Decoder.bind_of_error hreply)
      refine .inl ⟨_, .error e, Decoder.rounds_of_error hround, ?_, rfl⟩
      simp only [Bars.replyLoop, if_neg hend, hrun]
    | ok p =>
      obtain ⟨history, rest⟩ := p
      rw [hrun] at hreply
      obtain ⟨_, hmachine, rfl, hrest⟩ := hreply
      have hround := hstep.trans (Decoder.bind_of_ok hmachine)
      refine .inr ⟨_, (results ++ [history], rest), Decoder.rounds_of_next hround, ?_, rfl, hrest⟩
      simp only [Bars.replyLoop, if_neg hend, hrun]

/-- Nothing overflows and no index is out of range. -/
theorem decodeBarHistory_eq (hbytes : bytes.length < 2 ^ 32) :
    decodeBarHistory ratio bytes = Fault.ofResult (Bars.decodeBarHistory ratio bytes) :=
  replyLoop_eq hbytes

/-- The decoder is safe over bytes whose length fits 32 bits.  No index and no operation
panics: it answers as `decodeBarHistory` does.  Every round of its inner loop takes a bit,
and the bars that it accepts are in the order of their times. -/
theorem decodeBarHistory_safe (ratio : Int → Nat → F64) (hbytes : bytes.length < 2 ^ 32) :
    decodeBarHistory ratio bytes = Fault.ofResult (Bars.decodeBarHistory ratio bytes) ∧
      decodeBarHistory ratio bytes ≠ .error .panicked ∧
      (∀ limit digits count s r next t, token ratio limit digits count s r = .ok (next, t) →
        t.remaining < r.remaining) ∧
      ∀ histories, decodeBarHistory ratio bytes = .ok histories →
        ∀ history ∈ histories, history.bars.Pairwise fun a b => a.time < b.time := by
  have heq : decodeBarHistory ratio bytes = _ := decodeBarHistory_eq hbytes
  refine ⟨heq, ?_, fun limit digits count s r next t => token_remaining ratio limit digits, ?_⟩
  · rw [heq]
    exact Fault.ofResult_ne_panicked _
  · intro histories hok history hmem
    rw [heq, Fault.ofResult_eq_ok, decodeBarHistory_eq_ok] at hok
    obtain ⟨s, t, hreply⟩ := Decoder.mem_of_times hok hmem
    exact reply_sorted ratio hreply

/-- A reply with two bars, a minute apart from a skip. -/
def sampleBars : Bytes :=
  let name : Bytes := 88 :: List.replicate 63 0
  9 :: name ++ [0, 0, 0, 0, 1, 0] ++ [129, 0] ++ name ++ List.replicate 6 0 ++ [28, 0, 0, 0] ++
    List.replicate 4 0 ++ [224, 0, 0, 0, 2, 0, 0, 0, 2] ++ List.replicate 4 0 ++
    [2, 0, 0, 0, 3, 0, 0, 0] ++ List.replicate 28 0 ++
    [152, 139, 229, 7, 226, 28, 74, 237, 102, 244, 138, 172, 42, 149, 44, 86, 55, 255, 255, 191,
      255, 255, 255, 255, 255, 255, 255, 255]

theorem decodeBarHistory_safe_sample :
    ∃ histories, decodeBarHistory (fun _ _ => .zero) sampleBars = .ok histories ∧
      (histories.map fun history => history.bars.map (·.time)) = [[600, 720]] ∧
      ∀ history ∈ histories, history.bars.Pairwise fun a b => a.time < b.time := by
  obtain ⟨-, -, -, hsorted⟩ := decodeBarHistory_safe (fun _ _ => .zero)
    (show sampleBars.length < 2 ^ 32 by decide +kernel)
  have htimes : ((decodeBarHistory (fun _ _ => .zero) sampleBars).map fun histories =>
      histories.map fun history => history.bars.map (·.time)) = .ok [[600, 720]] := by
    decide +kernel
  cases hrun : decodeBarHistory (fun _ _ => .zero) sampleBars with
  | error fault =>
    rw [hrun] at htimes
    cases htimes
  | ok histories =>
    rw [hrun] at htimes
    exact ⟨histories, rfl, Except.ok.inj htimes, hsorted histories hrun⟩

end Follows

end Mt5Open.Native.Bars.Machine

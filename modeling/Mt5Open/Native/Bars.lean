import Mathlib.Data.Int.Order.Basic
import Mt5Open.Lib.Keyed
import Mt5Open.Native.Bitpack
import Mt5Open.Native.Records

/-!
# Bar histories

A response is a list of replies, and a reply holds one container or several, whose
bars are keyed by their time.  A container is a stream of packed tokens: an anchor
with one bar, a skip of minutes, or a run of bars, each of them against the one
before it.

Every token takes bits and every reply takes bytes, so the loops end.
-/

namespace Mt5Open.Native.Bars

open Lib BitReader

/-- The price `open` is `opening`, since `open` is a word of the language. -/
structure Bar where
  time : Int
  opening : F64
  high : F64
  low : F64
  close : F64
  tickVolume : Nat
  realVolume : Nat
  spread : Int
  deriving DecidableEq, Repr

structure BarHistory where
  symbol : String
  bars : List Bar
  deriving DecidableEq, Repr

/-- `x as i32`. -/
def asI32 (x : Int) : Int := x.bmod (2 ^ 32)

/-- The variables of the loop in `container`. -/
structure BarState where
  time : Int := 0
  opening : Int := 0
  close : Int := 0
  anchorFlags : Nat := 0
  spreadOn : Bool := false
  realOn : Bool := false
  anchored : Bool := false
  bars : List Bar := []
  deriving DecidableEq, Repr

section Container

-- `ratio p d` is the price `p` divided by ten to the power of `d`.
variable (ratio : Int → Nat → F64) (limit : Int) (digits : Nat)

/-- The extension bits of the flags. -/
def extensionBits (flags : Nat) : List Nat := (List.range' 3 61).filter flags.testBit

/-- The spread of a bar, 0 when it is left out. -/
def readSpread (tag : Int) (s : BarState) : BitDecoder Int :=
  if (tag = 0 ∧ s.anchorFlags &&& 1 ≠ 0) ∨ (tag = 1 ∧ s.spreadOn) then signedMagnitude 32
  else pure 0

/-- The real volume of a bar, 0 when it is left out. -/
def readRealVolume (tag : Int) (s : BarState) : BitDecoder Nat :=
  if (tag = 0 ∧ s.anchorFlags &&& 2 ≠ 0) ∨ (tag = 1 ∧ s.realOn) then packedNat 64 else pure 0

/-- One bar of an anchor (tag 0) or of a run (tag 1), with the prices relative to
its open. -/
def readBar (tag : Int) (s : BarState) : BitDecoder BarState := do
  let multiplier := if tag = 0 then 1 else limit
  let high ← packed 32 true
  let low ← packed 32 true
  let close ← signedMagnitude (if tag = 0 then 32 else 64)
  let tickVolume ← packedNat 64
  let spread ← readSpread tag s
  let realVolume ← readRealVolume tag s
  let _ ← Decoder.each (fun _ => packed 64 false) (extensionBits s.anchorFlags)
  if ¬(-2 ^ 63 ≤ s.time ∧ s.time < 2 ^ 63) then Decoder.raise ⟨"bar timestamp overflow"⟩
  else
    return {
      s with
      close := asI32 (multiplier * close)
      bars := s.bars ++ [{
        time := s.time
        opening := ratio s.opening digits
        high := ratio (s.opening + asI32 (multiplier * high)) digits
        low := ratio (s.opening - asI32 (multiplier * low)) digits
        close := ratio (s.opening + asI32 (multiplier * close)) digits
        tickVolume
        realVolume
        spread := asI32 spread }] }

/-- One round of the loop over a run. -/
def runBar (tag : Int) (s : BarState) : BitDecoder BarState := do
  if tag = 1 then
    let delta ← signedMagnitude 64
    readBar ratio limit digits tag
      { s with time := s.time + 60, opening := s.opening + (limit * delta + s.close) }
  else readBar ratio limit digits tag s

/-- The loop over a run. -/
def runBars (tag : Int) : Nat → BarState → BitDecoder BarState
  | 0, s => pure s
  | n + 1, s => do
    let s ← runBar ratio limit digits tag s
    runBars tag n s

/-- The fields of an anchor before its bar. -/
def readAnchor (s : BarState) : BitDecoder BarState := do
  let anchorFlags ← packedNat 64
  if anchorFlags &&& 4 ≠ 0 then Decoder.raise ⟨"unsupported bar anchor flag 4"⟩
  else
    let time ← packed 64 true
    let opening ← signedMagnitude 64
    return {
      s with
      time
      opening := asI32 opening
      anchorFlags
      spreadOn := s.spreadOn || anchorFlags &&& 1 != 0
      realOn := s.realOn || anchorFlags &&& 2 != 0
      anchored := true }

/-- The bars that a tag announces. -/
def readRun (tag : Int) (s : BarState) : BitDecoder (BarState × Int) := do
  if tag = 0 then
    let s ← readAnchor s
    return (s, 1)
  else if tag = 1 ∧ s.anchored then
    let run ← packed 64 true
    return (s, run)
  else Decoder.raise ⟨"invalid bar tag or missing anchor"⟩

/-- What stands behind a tag. -/
def tagged (count : Nat) (tag : Int) (s : BarState) : BitDecoder BarState := do
  if tag = 2 then
    if ¬s.anchored then Decoder.raise ⟨"bar skip before anchor"⟩
    else
      let minutes ← packed 64 true
      return { s with time := s.time + 60 * minutes }
  else
    let (s, run) ← readRun tag s
    -- A gap inside a session is sent as an empty run before its skip.
    if run = 0 ∧ tag = 1 then return s
    else if run ≤ 0 ∨ count - s.bars.length < run.toNat then
      Decoder.raise ⟨"bar run exceeds declared count"⟩
    else runBars ratio limit digits tag run.toNat s

/-- One round of the loop in `container`. -/
def token (count : Nat) (s : BarState) : BitDecoder BarState := do
  let tag ← packed 64 true
  tagged ratio limit digits count tag s

theorem shrinks_readBar (tag : Int) (s : BarState) :
    Decoder.Shrinks remaining (readBar ratio limit digits tag s) := by
  apply (shrinks_packed _ _).bind
  intro high
  apply (shrinks_packed _ _).bind
  intro low
  apply (shrinks_signedMagnitude _).bind
  intro close
  apply (shrinks_packedNat _).bind
  intro tickVolume
  apply Decoder.Shrinks.bind ((shrinks_signedMagnitude _).ite (.pure _))
  intro spread
  apply Decoder.Shrinks.bind ((shrinks_packedNat _).ite (.pure _))
  intro realVolume
  apply (Decoder.Shrinks.each (fun _ => shrinks_packed _ _) _).bind
  intro extensions
  exact (Decoder.Shrinks.raise _).ite (.pure _)

theorem shrinks_runBar (tag : Int) (s : BarState) :
    Decoder.Shrinks remaining (runBar ratio limit digits tag s) :=
  ((shrinks_signedMagnitude _).bind fun _ => shrinks_readBar _ _ _ _ _).ite
    (shrinks_readBar _ _ _ _ _)

theorem shrinks_runBars (tag : Int) (n : Nat) (s : BarState) :
    Decoder.Shrinks remaining (runBars ratio limit digits tag n s) := by
  induction n generalizing s with
  | zero => exact .pure s
  | succ n ih => exact (shrinks_runBar _ _ _ _ _).bind ih

theorem shrinks_readAnchor (s : BarState) : Decoder.Shrinks remaining (readAnchor s) :=
  (shrinks_packedNat _).bind fun _ => (Decoder.Shrinks.raise _).ite
    ((shrinks_packed _ _).bind fun _ => (shrinks_signedMagnitude _).bind fun _ => .pure _)

theorem shrinks_readRun (tag : Int) (s : BarState) : Decoder.Shrinks remaining (readRun tag s) :=
  ((shrinks_readAnchor s).bind fun _ => .pure _).ite
    (((shrinks_packed _ _).bind fun _ => .pure _).ite (.raise _))

theorem shrinks_tagged (count : Nat) (tag : Int) (s : BarState) :
    Decoder.Shrinks remaining (tagged ratio limit digits count tag s) :=
  ((Decoder.Shrinks.raise _).ite ((shrinks_packed _ _).bind fun _ => .pure _)).ite
    ((shrinks_readRun tag s).bind fun _ => (Decoder.Shrinks.pure _).ite
      ((Decoder.Shrinks.raise _).ite (shrinks_runBars _ _ _ _ _ _)))

/-- A token takes at least one bit. -/
theorem token_remaining {count : Nat} {s next : BarState} {r t : BitReader}
    (h : token ratio limit digits count s r = .ok (next, t)) : t.remaining < r.remaining := by
  obtain ⟨tag, middle, htag, hrest⟩ := Decoder.Shrinks.le_of_bind h fun tag =>
    shrinks_tagged ratio limit digits count tag s
  exact Nat.lt_of_le_of_lt hrest (packed_remaining htag)

/-- The loop in `container`, until there are as many bars as the header declares. -/
def barLoop (count : Nat) : Loop (BarState × BitReader) (Result (List Bar)) where
  body
    | (s, r) =>
      if s.bars.length < count then
        match token ratio limit digits count s r with
        | .error e => .inr (.error e)
        | .ok (next, rest) => .inl (next, rest)
      else .inr (.ok s.bars)
  measure s := s.2.remaining
  decreases := by
    rintro ⟨s, r⟩ t h
    simp only at h
    split at h
    · split at h
      · cases h
      · rename_i next rest htoken
        cases Sum.inl.inj h
        exact token_remaining ratio limit digits htoken
    · cases h

end Container

section Response

variable (ratio : Int → Nat → F64)

/-- The bars behind a header. -/
def containerBars (h : Record 129) : Reader (List Bar) := do
  let size := h.i32 72
  let bits := h.i32 80
  let count := h.i32 84
  let digits := LittleEndian.decodeInt (h.field 93 2 (by decide))
  let flags := LittleEndian.decode (h.field 95 2 (by decide))
  if size < 0 ∨ bits < 0 ∨ count < 0 ∨ 1000000 < count ∨ ¬(0 ≤ digits ∧ digits ≤ 12) then
    Reader.fail "invalid bar header bounds"
  else if flags ≠ 0 then Reader.fail s!"unsupported inner bar flags {flags}"
  else
    let data ← Reader.take size.toNat
    let k := LittleEndian.decode (h.field 88 1 (by decide))
    let b ← Decoder.ofResult (withLimit data bits.toNat k)
    let limit := h.i32 97 % 2 ^ 32
    Decoder.ofResult ((barLoop ratio limit digits.toNat count.toNat).run ({}, b))

/-- `bars::container`. -/
def container (symbol : String) : Reader (List Bar) := do
  let bytes ← Reader.take 129
  let h ← Decoder.ofResult (Record.new bytes 129)
  if LittleEndian.decodeInt (h.field 0 2 (by decide)) ≠ 129 ∨ h.text 2 64 ≠ symbol then
    Reader.fail "bar header does not match request symbol"
  else containerBars ratio h

/-- The number of containers of a reply. -/
def containerCount (subtype : UInt8) (status : Int) : Reader Nat := do
  if subtype = 9 ∧ status = 0 then
    let n ← Reader.u16
    return n.toNat
  else if subtype = 14 ∧ status = 1 then return 0
  else if subtype = 14 ∧ status = 0 then
    let _ ← Reader.u16
    let mode ← Reader.u16
    if mode ≠ 0 then Reader.fail "unsupported bar history mode" else return 1
  else Reader.fail s!"bar history subtype {subtype} status {status}"

/-- The part of a reply behind its subtype. -/
def replyBody (subtype : UInt8) : Reader BarHistory := do
  let name ← Reader.take 64
  let r ← Decoder.ofResult (Record.new name 64)
  let symbol := r.text 0 64
  let status ← Reader.i32
  let containers ← containerCount subtype status
  let bars ← Decoder.times (container ratio symbol) containers
  return { symbol, bars := ((Keyed.empty Bar.time).insertAll bars.flatten).items }

/-- One round of the loop in `decode_bar_history`. -/
def reply : Reader BarHistory := do
  let subtype ← Reader.byte
  replyBody ratio subtype

theorem shrinks_containerBars (h : Record 129) :
    Decoder.Shrinks List.length (containerBars ratio h) :=
  (Decoder.Shrinks.raise _).ite ((Decoder.Shrinks.raise _).ite
    ((Reader.shrinks_take _).bind fun _ => (Decoder.Shrinks.ofResult _).bind fun _ => .ofResult _))

theorem shrinks_container (symbol : String) :
    Decoder.Shrinks List.length (container ratio symbol) :=
  (Reader.shrinks_take _).bind fun _ => (Decoder.Shrinks.ofResult _).bind fun h =>
    (Decoder.Shrinks.raise _).ite (shrinks_containerBars ratio h)

theorem shrinks_u16 : Decoder.Shrinks List.length Reader.u16 :=
  (Reader.shrinks_take 2).bind fun _ => .pure _

theorem shrinks_containerCount (subtype : UInt8) (status : Int) :
    Decoder.Shrinks List.length (containerCount subtype status) :=
  (shrinks_u16.bind fun _ => .pure _).ite ((Decoder.Shrinks.pure _).ite
    ((shrinks_u16.bind fun _ => shrinks_u16.bind fun _ => (Decoder.Shrinks.raise _).ite
      (.pure _)).ite (.raise _)))

theorem shrinks_replyBody (subtype : UInt8) :
    Decoder.Shrinks List.length (replyBody ratio subtype) := by
  apply (Reader.shrinks_take 64).bind
  intro name
  apply (Decoder.Shrinks.ofResult _).bind
  intro r
  apply ((Reader.shrinks_take 4).bind fun _ => .pure _).bind
  intro status
  apply (shrinks_containerCount subtype status).bind
  intro containers
  exact ((shrinks_container ratio _).times containers).bind fun _ => .pure _

/-- A reply takes at least one byte. -/
theorem reply_shorter {history : BarHistory} {bytes rest : Bytes}
    (h : reply ratio bytes = .ok (history, rest)) : rest.length < bytes.length := by
  obtain ⟨subtype, middle, hsubtype, hrest⟩ :=
    Decoder.Shrinks.le_of_bind h (shrinks_replyBody ratio)
  exact Nat.lt_of_le_of_lt hrest (Reader.byte_shorter hsubtype)

/-- The bars of a reply are in the order of their times. -/
theorem reply_sorted {history : BarHistory} {bytes rest : Bytes}
    (h : reply ratio bytes = .ok (history, rest)) :
    history.bars.Pairwise fun a b => a.time < b.time := by
  obtain ⟨subtype, s, -, hbody⟩ := Decoder.bind_eq_ok.mp h
  obtain ⟨name, t, -, hbody⟩ := Decoder.bind_eq_ok.mp hbody
  obtain ⟨r, u, -, hbody⟩ := Decoder.bind_eq_ok.mp hbody
  obtain ⟨status, v, -, hbody⟩ := Decoder.bind_eq_ok.mp hbody
  obtain ⟨containers, w, -, hbody⟩ := Decoder.bind_eq_ok.mp hbody
  obtain ⟨bars, last, -, hpure⟩ := Decoder.bind_eq_ok.mp hbody
  obtain ⟨rfl, -⟩ := Decoder.pure_eq_ok.mp hpure
  exact Keyed.sorted _

theorem shrinks_reply : Decoder.Shrinks List.length (reply ratio) := fun _ _ _ h =>
  Nat.le_of_lt (reply_shorter ratio h)

/-- The loop of `decode_bar_history`. -/
def replyLoop : Loop (List BarHistory × Bytes) (Result (List BarHistory)) where
  body
    | (results, remaining) =>
      if remaining = [] then .inr (.ok results)
      else
        match reply ratio remaining with
        | .error e => .inr (.error e)
        | .ok (history, rest) => .inl (results ++ [history], rest)
  measure s := s.2.length
  decreases := by
    rintro ⟨results, remaining⟩ t h
    simp only at h
    split at h
    · cases h
    · split at h
      · cases h
      · rename_i history rest hreply
        cases Sum.inl.inj h
        exact reply_shorter ratio hreply

/-- `decode_bar_history`. -/
def decodeBarHistory (bytes : Bytes) : Result (List BarHistory) := (replyLoop ratio).run ([], bytes)

/-- Without bytes there are no replies. -/
theorem times_reply_nil {n : Nat} {histories : List BarHistory}
    (h : Decoder.times (reply ratio) n [] = .ok (histories, [])) : histories = [] := by
  cases n with
  | zero => exact (Decoder.pure_eq_ok.mp h).1.symm
  | succ n =>
    obtain ⟨history, rest, t, -, hreply, -⟩ := Decoder.times_succ_eq_ok.mp h
    exact absurd (reply_shorter ratio hreply) (Nat.not_lt_zero _)

/-- The first reply of bytes, and the others. -/
theorem times_reply_ne_nil {n : Nat} {bytes : Bytes} {histories : List BarHistory}
    (hbytes : bytes ≠ []) (h : Decoder.times (reply ratio) n bytes = .ok (histories, [])) :
    ∃ history others rest, histories = history :: others ∧
      reply ratio bytes = .ok (history, rest) ∧
      Decoder.times (reply ratio) others.length rest = .ok (others, []) := by
  cases n with
  | zero => exact absurd (Decoder.pure_eq_ok.mp h).2 hbytes
  | succ n =>
    obtain ⟨history, others, rest, hcons, hreply, hothers⟩ := Decoder.times_succ_eq_ok.mp h
    have hlength := Decoder.length_of_times hothers
    subst hlength
    exact ⟨history, others, rest, hcons, hreply, hothers⟩

theorem replyLoop_run {results all : List BarHistory} {bytes : Bytes} :
    (replyLoop ratio).run (results, bytes) = .ok all ↔
      ∃ histories, all = results ++ histories ∧
        Decoder.times (reply ratio) histories.length bytes = .ok (histories, []) := by
  refine Loop.run_rule (replyLoop ratio) (P := fun s result => result = .ok all ↔
    ∃ histories, all = s.1 ++ histories ∧
      Decoder.times (reply ratio) histories.length s.2 = .ok (histories, [])) ?_ ?_ _
  · rintro ⟨results, bytes⟩ result hstop
    simp only [replyLoop] at hstop
    split at hstop
    · rename_i hend
      subst hend
      cases Sum.inr.inj hstop
      constructor
      · intro h
        exact ⟨[], (Except.ok.inj h).symm.trans (List.append_nil _).symm, rfl⟩
      · rintro ⟨histories, rfl, hrun⟩
        rw [times_reply_nil ratio hrun, List.append_nil]
    · rename_i hmore
      split at hstop
      · rename_i e herror
        cases Sum.inr.inj hstop
        constructor
        · intro h
          cases h
        · rintro ⟨histories, -, hrun⟩
          obtain ⟨history, others, rest, -, hreply, -⟩ := times_reply_ne_nil ratio hmore hrun
          rw [herror] at hreply
          cases hreply
      · cases hstop
  · rintro ⟨results, bytes⟩ t result hnext hrest
    simp only [replyLoop] at hnext
    split at hnext
    · cases hnext
    · rename_i hmore
      split at hnext
      · cases hnext
      · rename_i history rest hreply
        cases Sum.inl.inj hnext
        rw [hrest]
        constructor
        · rintro ⟨others, rfl, hrun⟩
          exact ⟨history :: others, List.append_assoc _ [history] others,
            Decoder.times_succ_eq_ok.mpr ⟨history, others, rest, rfl, hreply, hrun⟩⟩
        · rintro ⟨histories, rfl, hrun⟩
          obtain ⟨first, others, left, rfl, hfirst, hothers⟩ :=
            times_reply_ne_nil ratio hmore hrun
          rw [hreply] at hfirst
          cases Except.ok.inj hfirst
          exact ⟨others, (List.append_assoc _ [history] others).symm, hothers⟩

/-- The replies of a history fill its bytes. -/
theorem decodeBarHistory_eq_ok {bytes : Bytes} {histories : List BarHistory} :
    decodeBarHistory ratio bytes = .ok histories ↔
      Decoder.times (reply ratio) histories.length bytes = .ok (histories, []) := by
  refine (replyLoop_run ratio).trans ⟨?_, fun h => ⟨histories, rfl, h⟩⟩
  rintro ⟨others, rfl, hrun⟩
  exact hrun

end Response

end Mt5Open.Native.Bars

import Mt5Open.Native.Bars

/-!
# Bar tokens

A stream of bars is written as tokens.  `barsOf` says which bars they stand for: a
token is read on a course, which carries the time, the open, the last close and
what the anchors have switched on.

`decodeBarHistory_tokens` says that the decoder reads a container of tokens as these
bars, keyed by their time.  The loop stops at the last bar that the header
declares, and the tokens behind it have no bars.
-/

namespace Mt5Open.Native.Bars

open Lib Lib.Bits Lib.Tape

/-! ## Tokens -/

/-- What is written of a bar. -/
structure BarFields where
  high : Int
  low : Int
  close : Int
  tickVolume : Nat
  spread : Option Int
  realVolume : Option Nat
  extensions : List Int
  deriving DecidableEq, Repr

inductive Token where
  | anchor (flags : Nat) (time opening : Int) (fields : BarFields)
  | skip (minutes : Int)
  /-- Bars, each with the change of the open. -/
  | run (bars : List (Int × BarFields))
  deriving Repr

def writeOptional {α : Type} (write : α → BitEncoder Unit) : Option α → BitEncoder Unit
  | none => pure ()
  | some a => write a

def BarFields.write (closeWidth : Nat) (f : BarFields) : BitEncoder (List Unit) := do
  BitWriter.packed f.high 32
  BitWriter.packed f.low 32
  BitWriter.signedMagnitude f.close closeWidth
  BitWriter.packed f.tickVolume 64
  writeOptional (fun v => BitWriter.signedMagnitude v 32) f.spread
  writeOptional (fun v => BitWriter.packed (v : Nat) 64) f.realVolume
  Decoder.each (fun v => BitWriter.packed v 64) f.extensions

def writeRunBar (b : Int × BarFields) : BitEncoder (List Unit) := do
  BitWriter.signedMagnitude b.1 64
  b.2.write 64

def Token.write : Token → BitEncoder Unit
  | anchor flags time opening f => do
    BitWriter.packed 0 64
    BitWriter.packed flags 64
    BitWriter.packed time 64
    BitWriter.signedMagnitude opening 64
    let _ ← f.write 32
    return ()
  | skip minutes => do
    BitWriter.packed 2 64
    BitWriter.packed minutes 64
  | run bars => do
    BitWriter.packed 1 64
    BitWriter.packed bars.length 64
    let _ ← Decoder.each writeRunBar bars
    return ()

def writeTokens (tokens : List Token) : BitEncoder Unit := do
  let _ ← Decoder.each Token.write tokens
  return ()

/-! ## The bars of tokens -/

/-- What a token finds. -/
structure Course where
  time : Int
  opening : Int
  close : Int
  flags : Nat
  spread : Bool
  real : Bool
  deriving DecidableEq, Repr

namespace Course

def start : Course := ⟨0, 0, 0, 0, false, false⟩

/-- At an anchor.  A spread and a real volume that are switched on stay on. -/
def anchored (c : Course) (flags : Nat) (time opening : Int) : Course where
  time := time
  opening := opening
  close := c.close
  flags := flags
  spread := c.spread || flags &&& 1 != 0
  real := c.real || flags &&& 2 != 0

def skipped (c : Course) (minutes : Int) : Course := { c with time := c.time + 60 * minutes }

/-- At the next bar of a run, a minute later. -/
def moved (limit : Nat) (c : Course) (delta : Int) : Course :=
  { c with time := c.time + 60, opening := c.opening + limit * delta + c.close }

/-- Behind a bar. -/
def closed (multiplier : Nat) (c : Course) (f : BarFields) : Course :=
  { c with close := (multiplier * f.close).bmod (2 ^ 32) }

/-- A bar, with its prices relative to the open. -/
def bar (ratio : Int → Nat → F64) (digits multiplier : Nat) (c : Course) (f : BarFields) : Bar where
  time := c.time
  opening := ratio c.opening digits
  high := ratio (c.opening + (multiplier * f.high).bmod (2 ^ 32)) digits
  low := ratio (c.opening - (multiplier * f.low).bmod (2 ^ 32)) digits
  close := ratio (c.opening + (multiplier * f.close).bmod (2 ^ 32)) digits
  tickVolume := f.tickVolume
  realVolume := f.realVolume.getD 0
  spread := (f.spread.getD 0).bmod (2 ^ 32)

end Course

section Meaning

variable (ratio : Int → Nat → F64) (limit digits : Nat)

def runOf : Course → List (Int × BarFields) → List Bar
  | _, [] => []
  | c, (delta, f) :: bars =>
    (c.moved limit delta).bar ratio digits limit f ::
      runOf ((c.moved limit delta).closed limit f) bars

def Token.bars (c : Course) : Token → List Bar
  | anchor flags time opening f => [(c.anchored flags time opening).bar ratio digits 1 f]
  | skip _ => []
  | run bars => runOf ratio limit digits c bars

def Token.after (c : Course) : Token → Course
  | anchor flags time opening f => (c.anchored flags time opening).closed 1 f
  | skip minutes => c.skipped minutes
  | run bars => bars.foldl (fun c b => (c.moved limit b.1).closed limit b.2) c

/-- The bars that tokens stand for. -/
def barsOf : Course → List Token → List Bar
  | _, [] => []
  | c, t :: tokens => t.bars ratio limit digits c ++ barsOf (t.after limit c) tokens

end Meaning

theorem length_runOf {ratio : Int → Nat → F64} {limit digits : Nat} (c : Course)
    (items : List (Int × BarFields)) :
    (runOf ratio limit digits c items).length = items.length := by
  induction items generalizing c with
  | nil => rfl
  | cons b items ih => exact congrArg (· + 1) (ih _)

/-! ## Tokens that can be written -/

/-- The values are in their storage, and what the flags ask for is there. -/
structure BarFields.Fits (closeWidth flags : Nat) (spread real : Prop) (f : BarFields) : Prop where
  high : InStorage 32 true f.high
  low : InStorage 32 true f.low
  close : f.close.natAbs < 2 ^ closeWidth
  tickVolume : f.tickVolume < 2 ^ 64
  spread_there : f.spread.isSome ↔ spread
  spread : ∀ v ∈ f.spread, v.natAbs < 2 ^ 32
  realVolume_there : f.realVolume.isSome ↔ real
  realVolume : ∀ v ∈ f.realVolume, v < 2 ^ 64
  extensions_there : f.extensions.length = (extensionBits flags).length
  extensions : ∀ v ∈ f.extensions, -2 ^ 63 ≤ v ∧ v < 2 ^ 64

def Token.Fits (c : Course) : Token → Prop
  | anchor flags time opening f =>
    flags < 2 ^ 64 ∧ flags &&& 4 = 0 ∧ InStorage 64 true time ∧ InStorage 32 true opening ∧
      f.Fits 32 flags (flags &&& 1 ≠ 0) (flags &&& 2 ≠ 0)
  | skip minutes => InStorage 64 true minutes
  | run bars => ∀ b ∈ bars, b.1.natAbs < 2 ^ 64 ∧ b.2.Fits 64 c.flags c.spread c.real

def TokensFit (limit : Nat) : Course → List Token → Prop
  | _, [] => True
  | c, t :: tokens => t.Fits c ∧ TokensFit limit (t.after limit c) tokens

def Token.IsAnchor : Token → Prop
  | anchor .. => True
  | _ => False

/-! ## The bits of tokens -/

section Bits

variable (k : Nat)

def BarFields.bits (f : BarFields) : List Bool :=
  packedBits k 32 f.high ++ (packedBits k 32 f.low ++ (magnitudeBits k f.close ++
    (packedBits k 64 f.tickVolume ++ (f.spread.elim [] (magnitudeBits k) ++
      (f.realVolume.elim [] (fun v => packedBits k 64 v) ++
        f.extensions.flatMap (packedBits k 64))))))

def runBits (b : Int × BarFields) : List Bool := magnitudeBits k b.1 ++ b.2.bits k

def Token.bits : Token → List Bool
  | anchor flags time opening f =>
    packedBits k 64 0 ++ (packedBits k 64 flags ++ (packedBits k 64 time ++
      (magnitudeBits k opening ++ f.bits k)))
  | skip minutes => packedBits k 64 2 ++ packedBits k 64 minutes
  | run bars => packedBits k 64 1 ++ (packedBits k 64 bars.length ++ bars.flatMap (runBits k))

end Bits

/-! ## Writing -/

section Write

variable {k : Nat} (hk : 1 ≤ k ∧ k ≤ 8)

include hk in
theorem BarFields.Fits.spells_write {closeWidth flags : Nat} {spread real : Prop} {f : BarFields}
    (h : f.Fits closeWidth flags spread real) (hwidth : closeWidth ∈ [8, 16, 32, 64])
    (past : List Bool) :
    Spells (BitWriter.Stands k) (f.write closeWidth) past (f.bits k)
      (f.extensions.map fun _ => ()) := by
  unfold BarFields.write BarFields.bits
  refine (h.high.spells_write (by decide) _).bind ?_
  refine (h.low.spells_write (by decide) _).bind ?_
  refine (BitWriter.spells_signedMagnitude hk hwidth h.close _).bind ?_
  refine (InStorage.spells_writeNat h.tickVolume _).bind ?_
  have hspread : ∀ past, Spells (BitWriter.Stands k)
      (writeOptional (fun v => BitWriter.signedMagnitude v 32) f.spread) past
      (f.spread.elim [] (magnitudeBits k)) () := by
    intro past
    cases hvalue : f.spread with
    | none => exact .pure past ()
    | some v => exact BitWriter.spells_signedMagnitude hk (by decide) (h.spread v hvalue) past
  have hreal : ∀ past, Spells (BitWriter.Stands k)
      (writeOptional (fun v => BitWriter.packed (v : Nat) 64) f.realVolume) past
      (f.realVolume.elim [] fun v => packedBits k 64 v) () := by
    intro past
    cases hvalue : f.realVolume with
    | none => exact .pure past ()
    | some v => exact InStorage.spells_writeNat (h.realVolume v hvalue) past
  refine (hspread _).bind ((hreal _).bind ?_)
  refine Spells.each_const _ fun past v hv => ?_
  obtain ⟨hmin, hmax⟩ := h.extensions v hv
  exact BitWriter.spells_packed hmin hmax past

include hk in
theorem Token.Fits.spells_write {c : Course} {t : Token} (h : t.Fits c)
    (hcount : ∀ bars, t = .run bars → bars.length < 2 ^ 64) (past : List Bool) :
    Spells (BitWriter.Stands k) t.write past (t.bits k) () := by
  cases t with
  | anchor flags time opening f =>
    obtain ⟨hflags, -, htime, hopening, hf⟩ := h
    have hmagnitude : opening.natAbs < 2 ^ 64 := by
      have hrange : -2 ^ 31 ≤ opening ∧ opening < 2 ^ 31 := hopening
      omega
    refine (InStorage.spells_writeNat (show 0 < 2 ^ 64 by decide) _).bind ?_
    refine (InStorage.spells_writeNat hflags _).bind ?_
    refine (htime.spells_write (by decide) _).bind ?_
    refine (BitWriter.spells_signedMagnitude hk (by decide) hmagnitude _).bind ?_
    exact (hf.spells_write hk (by decide) _).map fun _ => ()
  | skip minutes =>
    have hminutes : InStorage 64 true minutes := h
    exact (InStorage.spells_writeNat (show 2 < 2 ^ 64 by decide) _).bind
      (hminutes.spells_write (by decide) _)
  | run bars =>
    refine (InStorage.spells_writeNat (show 1 < 2 ^ 64 by decide) _).bind ?_
    refine (InStorage.spells_writeNat (hcount bars rfl) _).bind ?_
    have hbars : ∀ past, ∀ b ∈ bars, Spells (BitWriter.Stands k) (writeRunBar b) past
        (runBits k b) (b.2.extensions.map fun _ => ()) := by
      intro past b hb
      obtain ⟨hdelta, hf⟩ := h b hb
      exact (BitWriter.spells_signedMagnitude hk (by decide) hdelta _).bind
        (hf.spells_write hk (by decide) _)
    exact (Spells.each_const _ hbars).map fun _ => ()

end Write

/-! ## Reading -/

/-- The variables of the decoder on a course, with the bars so far. -/
def Course.state (c : Course) (anchored : Bool) (bars : List Bar) : BarState where
  time := c.time
  opening := c.opening
  close := c.close
  anchorFlags := c.flags
  spreadOn := c.spread
  realOn := c.real
  anchored := anchored
  bars := bars

section Read

variable {k : Nat} (hk : 1 ≤ k ∧ k ≤ 8) {ratio : Int → Nat → F64} {limit digits : Nat}

include hk

theorem spells_extensions {items : List Nat} {values : List Int}
    (h : values.length = items.length) (past : List Bool) :
    ∃ answers, Spells (BitReader.Stands k)
      (Decoder.each (fun _ => BitReader.packed 64 false) items) past
      (values.flatMap (packedBits k 64)) answers := by
  induction items generalizing values past with
  | nil =>
    obtain rfl := List.length_eq_zero_iff.mp h
    exact ⟨[], .pure past []⟩
  | cons item items ih =>
    cases values with
    | nil => cases h
    | cons v values =>
      obtain ⟨answers, hrest⟩ := ih (Nat.succ.inj h) (past ++ packedBits k 64 v)
      exact ⟨_, (BitReader.spells_packed hk (by decide) false v past).bind (hrest.map _)⟩

/-- A bar is read as it was written, for the storage and the presence of its tag. -/
theorem BarFields.Fits.spells_read {tag : Int} {closeWidth multiplier : Nat} {spread real : Prop}
    {c : Course} {f : BarFields} {anchored : Bool} {bars : List Bar}
    (h : f.Fits closeWidth c.flags spread real)
    (hwidth : closeWidth = if tag = 0 then 32 else 64)
    (hmultiplier : (multiplier : Int) = if tag = 0 then 1 else (limit : Int))
    (hspread : spread ↔ (tag = 0 ∧ c.flags &&& 1 ≠ 0) ∨ (tag = 1 ∧ c.spread))
    (hreal : real ↔ (tag = 0 ∧ c.flags &&& 2 ≠ 0) ∨ (tag = 1 ∧ c.real))
    (htime : -2 ^ 63 ≤ c.time ∧ c.time < 2 ^ 63) (past : List Bool) :
    Spells (BitReader.Stands k) (readBar ratio limit digits tag (c.state anchored bars)) past
      (f.bits k) ((c.closed multiplier f).state anchored
        (bars ++ [c.bar ratio digits multiplier f])) := by
  have hclose : closeWidth ∈ [8, 16, 32, 64] := by
    rw [hwidth]
    split <;> decide
  have hreadSpread : ∀ past, Spells (BitReader.Stands k)
      (readSpread tag (c.state anchored bars)) past (f.spread.elim [] (magnitudeBits k))
      (f.spread.getD 0) := fun past =>
    .optional (h.spread_there.trans hspread) fun v hv =>
      BitReader.spells_signedMagnitude hk (by decide) (h.spread v hv) past
  have hreadReal : ∀ past, Spells (BitReader.Stands k)
      (readRealVolume tag (c.state anchored bars)) past
      (f.realVolume.elim [] fun v => packedBits k 64 v) (f.realVolume.getD 0) := fun past =>
    .optional (h.realVolume_there.trans hreal) fun v hv =>
      InStorage.spells_readNat hk (by decide) (h.realVolume v hv) past
  unfold readBar BarFields.bits
  rw [← hwidth, ← hmultiplier]
  refine (h.high.spells_read hk (by decide) _).bind ?_
  refine (h.low.spells_read hk (by decide) _).bind ?_
  refine (BitReader.spells_signedMagnitude hk hclose h.close _).bind ?_
  refine (InStorage.spells_readNat hk (by decide) h.tickVolume _).bind ?_
  refine (hreadSpread _).bind ((hreadReal _).bind ?_)
  obtain ⟨answers, hextensions⟩ := spells_extensions hk h.extensions_there _
  refine hextensions.bind_nil ?_
  have hrange : -2 ^ 63 ≤ (c.state anchored bars).time ∧ (c.state anchored bars).time < 2 ^ 63 :=
    htime
  rw [if_neg (not_not_intro hrange)]
  exact .pure _ _

theorem spells_runBar {delta : Int} {f : BarFields} {c : Course} {bars : List Bar}
    (hdelta : delta.natAbs < 2 ^ 64) (hf : f.Fits 64 c.flags c.spread c.real)
    (htime : -2 ^ 63 ≤ (c.moved limit delta).time ∧ (c.moved limit delta).time < 2 ^ 63)
    (past : List Bool) :
    Spells (BitReader.Stands k) (runBar ratio limit digits 1 (c.state true bars)) past
      (runBits k (delta, f)) (((c.moved limit delta).closed limit f).state true
        (bars ++ [(c.moved limit delta).bar ratio digits limit f])) := by
  have hmoved : ({ c.state true bars with
      time := c.time + 60, opening := c.opening + (limit * delta + c.close) } : BarState) =
        (c.moved limit delta).state true bars := by
    simp only [Course.state, Course.moved, Int.add_assoc]
  have hfits : f.Fits 64 (c.moved limit delta).flags (c.moved limit delta).spread
      (c.moved limit delta).real := hf
  unfold runBar runBits
  rw [if_pos rfl]
  refine (BitReader.spells_signedMagnitude hk (by decide) hdelta _).bind ?_
  exact hmoved ▸ hfits.spells_read hk rfl rfl (by simp) (by simp) htime _

theorem spells_runBars {items : List (Int × BarFields)} {c : Course} {bars : List Bar}
    (hfits : ∀ b ∈ items, b.1.natAbs < 2 ^ 64 ∧ b.2.Fits 64 c.flags c.spread c.real)
    (htimes : ∀ b ∈ runOf ratio limit digits c items, -2 ^ 63 ≤ b.time ∧ b.time < 2 ^ 63)
    (past : List Bool) :
    Spells (BitReader.Stands k) (runBars ratio limit digits 1 items.length (c.state true bars)) past
      (items.flatMap (runBits k))
      ((items.foldl (fun c b => (c.moved limit b.1).closed limit b.2) c).state true
        (bars ++ runOf ratio limit digits c items)) := by
  induction items generalizing c bars past with
  | nil =>
    rw [runOf, List.append_nil]
    exact .pure past _
  | cons b items ih =>
    obtain ⟨delta, f⟩ := b
    obtain ⟨hdelta, hf⟩ := hfits (delta, f) List.mem_cons_self
    obtain ⟨htime, hrest⟩ := List.forall_mem_cons.mp htimes
    have hothers := @ih ((c.moved limit delta).closed limit f)
      (bars ++ [(c.moved limit delta).bar ratio digits limit f])
      (fun b hb => hfits b (List.mem_cons_of_mem _ hb)) hrest (past ++ runBits k (delta, f))
    rw [List.append_assoc] at hothers
    exact (spells_runBar hk hdelta hf htime past).bind hothers

theorem spells_readAnchor {flags : Nat} {time opening : Int} {c : Course} {anchored : Bool}
    {bars : List Bar} (hflags : flags < 2 ^ 64) (hclear : flags &&& 4 = 0)
    (htime : InStorage 64 true time) (hopening : InStorage 32 true opening) (past : List Bool) :
    Spells (BitReader.Stands k) (readAnchor (c.state anchored bars)) past
      (packedBits k 64 flags ++ (packedBits k 64 time ++ magnitudeBits k opening))
      ((c.anchored flags time opening).state true bars) := by
  have hrange : -2 ^ 31 ≤ opening ∧ opening < 2 ^ 31 := hopening
  have hwrap : asI32 opening = opening := Int.bmod_eq_of_le_mul_two (by omega) (by omega)
  unfold readAnchor
  refine (InStorage.spells_readNat hk (by decide) hflags _).bind ?_
  rw [if_neg (not_not_intro hclear)]
  refine (htime.spells_read hk (by decide) _).bind ?_
  refine (BitReader.spells_signedMagnitude hk (by decide) (by omega) _).bind_nil ?_
  refine .pure_of_eq _ ?_
  rw [hwrap]
  rfl

/-! The three tokens, behind their tags. -/

theorem spells_anchor {flags : Nat} {time opening : Int} {f : BarFields} {c : Course}
    {anchored : Bool} {bars : List Bar} {count : Nat}
    (h : (Token.anchor flags time opening f).Fits c)
    (htime : -2 ^ 63 ≤ time ∧ time < 2 ^ 63) (hroom : bars.length < count) (past : List Bool) :
    Spells (BitReader.Stands k) (tagged ratio limit digits count 0 (c.state anchored bars)) past
      ((packedBits k 64 flags ++ (packedBits k 64 time ++ magnitudeBits k opening)) ++ f.bits k)
      (((c.anchored flags time opening).closed 1 f).state true
        (bars ++ [(c.anchored flags time opening).bar ratio digits 1 f])) := by
  obtain ⟨hflags, hclear, hstorage, hopening, hf⟩ := h
  have hanchor : Spells (BitReader.Stands k) (readRun 0 (c.state anchored bars)) past
      (packedBits k 64 flags ++ (packedBits k 64 time ++ magnitudeBits k opening))
      ((c.anchored flags time opening).state true bars, 1) :=
    (spells_readAnchor hk hflags hclear hstorage hopening past).map fun s => (s, 1)
  have hfits : f.Fits 32 (c.anchored flags time opening).flags (flags &&& 1 ≠ 0)
      (flags &&& 2 ≠ 0) := hf
  unfold tagged
  rw [if_neg (by decide)]
  refine hanchor.bind ?_
  dsimp only
  rw [if_neg (by decide), if_neg (by simp only [Course.state]; omega)]
  refine Spells.bind_nil ?_ (.pure _ _)
  exact hfits.spells_read hk rfl rfl (by simp [Course.anchored]) (by simp [Course.anchored]) htime _

theorem spells_skip {minutes : Int} {c : Course} {bars : List Bar} {count : Nat}
    (h : InStorage 64 true minutes) (past : List Bool) :
    Spells (BitReader.Stands k) (tagged ratio limit digits count 2 (c.state true bars)) past
      (packedBits k 64 minutes) ((c.skipped minutes).state true bars) := by
  unfold tagged
  rw [if_pos rfl, if_neg (by simp [Course.state])]
  exact (h.spells_read hk (by decide) past).bind_nil (.pure _ _)

theorem spells_run {items : List (Int × BarFields)} {c : Course} {bars : List Bar} {count : Nat}
    (h : (Token.run items).Fits c)
    (htimes : ∀ b ∈ runOf ratio limit digits c items, -2 ^ 63 ≤ b.time ∧ b.time < 2 ^ 63)
    (hroom : bars.length + items.length ≤ count) (hmax : count ≤ 1000000) (past : List Bool) :
    Spells (BitReader.Stands k) (tagged ratio limit digits count 1 (c.state true bars)) past
      (packedBits k 64 items.length ++ items.flatMap (runBits k))
      ((items.foldl (fun c b => (c.moved limit b.1).closed limit b.2) c).state true
        (bars ++ runOf ratio limit digits c items)) := by
  have hitems : InStorage 64 true items.length := ⟨by omega, by omega⟩
  have hrun : Spells (BitReader.Stands k) (readRun 1 (c.state true bars)) past
      (packedBits k 64 items.length) (c.state true bars, (items.length : Int)) :=
    (hitems.spells_read hk (by decide) past).map fun run => (c.state true bars, run)
  unfold tagged
  rw [if_neg (by decide)]
  refine hrun.bind ?_
  dsimp only
  by_cases hempty : items = []
  · -- An empty run.
    subst hempty
    rw [if_pos (by decide), runOf, List.append_nil]
    exact .pure _ _
  · have hpos : 0 < items.length := List.length_pos_iff.mpr hempty
    rw [if_neg (by omega), if_neg (by simp only [Course.state]; omega)]
    exact spells_runBars hk h htimes _

/-- A token is read as it was written, when its bars are among those that the header
declares. -/
theorem Token.Fits.spells_read {t : Token} {c : Course} {anchored : Bool} {bars : List Bar}
    {count : Nat} (h : t.Fits c) (hanchor : anchored = true ∨ t.IsAnchor)
    (htimes : ∀ b ∈ t.bars ratio limit digits c, -2 ^ 63 ≤ b.time ∧ b.time < 2 ^ 63)
    (hcount : bars.length + (t.bars ratio limit digits c).length ≤ count)
    (hmax : count ≤ 1000000) (past : List Bool) :
    Spells (BitReader.Stands k) (token ratio limit digits count (c.state anchored bars)) past
      (t.bits k) ((t.after limit c).state true (bars ++ t.bars ratio limit digits c)) := by
  cases t with
  | anchor flags time opening f =>
    have htag : InStorage 64 true 0 := by decide
    have hword : (anchor flags time opening f).bits k = packedBits k 64 0 ++
        ((packedBits k 64 flags ++ (packedBits k 64 time ++ magnitudeBits k opening)) ++
          f.bits k) := by
      simp only [Token.bits, List.append_assoc]
    rw [hword]
    exact (htag.spells_read hk (by decide) past).bind
      (spells_anchor hk h (htimes _ List.mem_cons_self) hcount _)
  | skip minutes =>
    obtain rfl : anchored = true := hanchor.resolve_right id
    have htag : InStorage 64 true 2 := by decide
    rw [Token.bars, List.append_nil]
    exact (htag.spells_read hk (by decide) past).bind (spells_skip hk h _)
  | run items =>
    obtain rfl : anchored = true := hanchor.resolve_right id
    have htag : InStorage 64 true 1 := by decide
    have hroom : bars.length + items.length ≤ count := by
      have hlength : (runOf ratio limit digits c items).length = items.length :=
        length_runOf c items
      exact hlength ▸ hcount
    exact (htag.spells_read hk (by decide) past).bind (spells_run hk h htimes hroom hmax _)

end Read

/-! ## Containers -/

section Container

variable {k : Nat} (hk : 1 ≤ k ∧ k ≤ 8) {ratio : Int → Nat → F64} {limit digits : Nat}

/-- Each token fits where it stands, and has no more bars than all of them. -/
theorem TokensFit.each {tokens : List Token} {c : Course} {n : Nat}
    (hfits : TokensFit limit c tokens) (hcount : (barsOf ratio limit digits c tokens).length ≤ n) :
    ∀ t ∈ tokens, ∃ c : Course, t.Fits c ∧ (t.bars ratio limit digits c).length ≤ n := by
  induction tokens generalizing c with
  | nil => exact fun t ht => absurd ht List.not_mem_nil
  | cons t tokens ih =>
    obtain ⟨ht, hrest⟩ := hfits
    rw [barsOf, List.length_append] at hcount
    refine List.forall_mem_cons.mpr ⟨⟨c, ht, by omega⟩, ih hrest (by omega)⟩

include hk in
theorem spells_writeTokens {tokens : List Token} {c : Course} (hfits : TokensFit limit c tokens)
    (hcount : (barsOf ratio limit digits c tokens).length ≤ 1000000) (past : List Bool) :
    Spells (BitWriter.Stands k) (writeTokens tokens) past (tokens.flatMap (Token.bits k)) () := by
  have heach : ∀ past, ∀ t ∈ tokens,
      Spells (BitWriter.Stands k) t.write past (t.bits k) () := by
    intro past t ht
    obtain ⟨c, hfits, hlength⟩ := hfits.each hcount t ht
    refine hfits.spells_write hk ?_ past
    rintro items rfl
    rw [Token.bars, length_runOf] at hlength
    omega
  exact (Spells.each_const past heach).map fun _ => ()

include hk in
/-- The loop reads the bars that are left, and stops behind the last one. -/
theorem barLoop_run {tokens : List Token} {c : Course} {anchored : Bool} {bars : List Bar}
    {count : Nat} (hfits : TokensFit limit c tokens)
    (hanchor : anchored = true ∨ ∀ t ∈ tokens.head?, t.IsAnchor)
    (htimes : ∀ b ∈ barsOf ratio limit digits c tokens, -2 ^ 63 ≤ b.time ∧ b.time < 2 ^ 63)
    (hcount : bars.length + (barsOf ratio limit digits c tokens).length = count)
    (hmax : count ≤ 1000000) {past : List Bool} {r : BitReader}
    (hr : r.Stands k past (tokens.flatMap (Token.bits k))) :
    (barLoop ratio limit digits count).run (c.state anchored bars, r) =
      .ok (bars ++ barsOf ratio limit digits c tokens) := by
  induction tokens generalizing c anchored bars past r with
  | nil =>
    have hstop : ¬bars.length < count := Nat.not_lt.mpr (Nat.le_of_eq hcount.symm)
    rw [barsOf, List.append_nil]
    exact Loop.run_of_stop _ (if_neg hstop)
  | cons t tokens ih =>
    obtain ⟨ht, hrest⟩ := hfits
    rw [barsOf, List.length_append] at hcount
    obtain ⟨hown, hothers⟩ := List.forall_mem_append.mp htimes
    by_cases hbars : bars.length < count
    · rw [List.flatMap_cons] at hr
      have hroom : bars.length + (t.bars ratio limit digits c).length ≤ count := by omega
      obtain ⟨u, htoken, hu⟩ := ht.spells_read hk (hanchor.imp_right fun h => h t rfl) hown
        hroom hmax past r _ hr
      have hround : (barLoop ratio limit digits count).body (c.state anchored bars, r) =
          .inl ((t.after limit c).state true (bars ++ t.bars ratio limit digits c), u) := by
        refine (if_pos hbars).trans ?_
        rw [htoken]
      rw [Loop.run_of_next _ hround, ih hrest (.inl rfl) hothers _ hu, barsOf, List.append_assoc]
      rw [List.length_append]
      omega
    · -- The tokens that are left have no bars.
      have hempty : barsOf ratio limit digits c (t :: tokens) = [] := by
        rw [← List.length_eq_zero_iff, barsOf, List.length_append]
        omega
      rw [hempty, List.append_nil]
      exact Loop.run_of_stop _ (if_neg hbars)

end Container

/-! ## Responses -/

/-- A header declares the bits of a writer, for a symbol. -/
structure Declares (h : Record 129) (symbol : String) (w : BitWriter) (count limit digits : Nat) :
    Prop where
  headerSize : LittleEndian.decodeInt (h.field 0 2 (by decide)) = 129
  symbol : h.text 2 64 = symbol
  size : h.i32 72 = w.data.length
  bits : h.i32 80 = w.position
  count : h.i32 84 = count
  k : LittleEndian.decode (h.field 88 1 (by decide)) = w.k
  digits : LittleEndian.decodeInt (h.field 93 2 (by decide)) = digits
  flags : LittleEndian.decode (h.field 95 2 (by decide)) = 0
  limit : h.i32 97 % 2 ^ 32 = limit

section Header

variable (name : Record 64) (w : BitWriter) (count limit digits : Nat)

def headerChunks : List Bytes :=
  [LittleEndian.encode 2 129, name.bytes, List.replicate 6 0,
    LittleEndian.encode 4 w.data.length, List.replicate 4 0, LittleEndian.encode 4 w.position,
    LittleEndian.encode 4 count, LittleEndian.encode 1 w.k, List.replicate 4 0,
    LittleEndian.encode 2 digits, LittleEndian.encode 2 0, LittleEndian.encode 4 limit,
    List.replicate 28 0]

/-- A header with zeros in the fields that are not read. -/
def barHeader : Record 129 where
  bytes := (headerChunks name w count limit digits).flatten
  length_bytes := by simp [headerChunks, name.length_bytes]

variable {name w count limit digits}

theorem field_barHeader (i : Nat) {start size : Nat} {chunk : Bytes}
    (hi : (headerChunks name w count limit digits)[i]? = some chunk)
    (hstart : ((headerChunks name w count limit digits).take i).flatten.length = start)
    (hsize : chunk.length = size) (h : start + size ≤ 129) :
    (barHeader name w count limit digits).field start size h = chunk :=
  slice_flatten hi hstart hsize

/-- Any bits whose number fits in a header are declared by one. -/
theorem declares_barHeader (hbits : w.position < 2 ^ 31) (hsize : w.data.length < 2 ^ 31)
    (hk : w.k ≤ 8) (hcount : count ≤ 1000000) (hlimit : limit < 2 ^ 32) (hdigits : digits ≤ 12) :
    Declares (barHeader name w count limit digits) (name.text 0 64) w count limit digits where
  headerSize := by
    rw [field_barHeader 0 rfl (by simp [headerChunks]) (by simp)]
    exact LittleEndian.decodeInt_encode_of_lt (by decide)
  symbol := by
    have hname : name.field 0 64 (by decide) = name.bytes :=
      List.take_of_length_le (Nat.le_of_eq name.length_bytes)
    unfold Record.text
    rw [field_barHeader 1 rfl (by simp [headerChunks]) name.length_bytes, hname]
  size := by
    unfold Record.i32
    rw [field_barHeader 3 rfl (by simp [headerChunks, name.length_bytes]) (by simp)]
    exact LittleEndian.decodeInt_encode_of_lt (by omega)
  bits := by
    unfold Record.i32
    rw [field_barHeader 5 rfl (by simp [headerChunks, name.length_bytes]) (by simp)]
    exact LittleEndian.decodeInt_encode_of_lt (by omega)
  count := by
    unfold Record.i32
    rw [field_barHeader 6 rfl (by simp [headerChunks, name.length_bytes]) (by simp)]
    exact LittleEndian.decodeInt_encode_of_lt (by omega)
  k := by
    rw [field_barHeader 7 rfl (by simp [headerChunks, name.length_bytes]) (by simp)]
    exact LittleEndian.decode_encode_of_lt (by omega)
  digits := by
    rw [field_barHeader 9 rfl (by simp [headerChunks, name.length_bytes]) (by simp)]
    exact LittleEndian.decodeInt_encode_of_lt (by omega)
  flags := by
    rw [field_barHeader 10 rfl (by simp [headerChunks, name.length_bytes]) (by simp)]
    exact LittleEndian.decode_encode_of_lt (by decide)
  limit := by
    unfold Record.i32
    rw [field_barHeader 11 rfl (by simp [headerChunks, name.length_bytes]) (by simp)]
    rw [LittleEndian.decodeInt, LittleEndian.decode_encode_of_lt (by omega),
      LittleEndian.length_encode]
    have hwrap : (limit : Int).bmod (256 ^ 4) % (256 ^ 4 : Nat) = limit % (256 ^ 4 : Nat) :=
      Int.bmod_emod
    exact hwrap.trans (Int.emod_eq_of_lt (by omega) (by omega))

end Header

/-- The bytes of a reply with one container, before the container. -/
inductive ReplyHead (name : Record 64) : Bytes → Prop
  | counted : ReplyHead name (9 :: (name.bytes ++ [0, 0, 0, 0, 1, 0]))
  | single (a b : UInt8) : ReplyHead name (14 :: (name.bytes ++ [0, 0, 0, 0, a, b, 0, 0]))

section Response

variable {ratio : Int → Nat → F64} {k limit digits : Nat} {tokens : List Token}

theorem containerBars_eq (hk : 1 ≤ k ∧ k ≤ 8) (hdigits : digits ≤ 12)
    (hfits : TokensFit limit .start tokens) (hanchor : ∀ t ∈ tokens.head?, t.IsAnchor)
    (htimes : ∀ b ∈ barsOf ratio limit digits .start tokens,
      -2 ^ 63 ≤ b.time ∧ b.time < 2 ^ 63)
    (hcount : (barsOf ratio limit digits .start tokens).length ≤ 1000000) {w : BitWriter}
    (hw : w.Stands k (tokens.flatMap (Token.bits k)) []) {h : Record 129} {symbol : String}
    (hdeclares : Declares h symbol w (barsOf ratio limit digits .start tokens).length limit digits)
    (rest : Bytes) :
    containerBars ratio h (w.data ++ rest) =
      .ok (barsOf ratio limit digits .start tokens, rest) := by
  obtain ⟨hwk, hposition, hdata⟩ := hw
  have hlimit : w.position ≤ w.data.length * 8 := by
    rw [hdata, length_toBytes, hposition]
    omega
  let r : BitReader := ⟨w.data, w.position, 0, w.k, hlimit⟩
  have hreader : BitReader.withLimit w.data w.position w.k = .ok r :=
    dif_pos ⟨hlimit, hwk ▸ hk⟩
  have hstands : r.Stands k [] (tokens.flatMap (Token.bits k)) := by
    refine ⟨hwk, rfl, ?_⟩
    show (ofBytes w.data).take w.position = _
    rw [hdata, hposition, ofBytes_toBytes]
    exact List.take_left
  have hrun : (barLoop ratio limit digits (barsOf ratio limit digits .start tokens).length).run
      (Course.start.state false [], r) = .ok ([] ++ barsOf ratio limit digits .start tokens) :=
    barLoop_run hk hfits (.inr hanchor) htimes (Nat.zero_add _) hcount hstands
  unfold containerBars
  simp only [hdeclares.size, hdeclares.bits, hdeclares.count, hdeclares.digits, hdeclares.flags,
    hdeclares.k, hdeclares.limit, Int.toNat_natCast]
  rw [if_neg (by omega), if_neg (by decide), Decoder.bind_of_ok (Reader.take_append rfl), hreader]
  refine (Decoder.bind_of_ok rfl).trans ?_
  show Decoder.ofResult ((barLoop ratio limit digits _).run (Course.start.state false [], r)) rest =
    _
  rw [hrun]
  rfl

theorem container_eq {h : Record 129} {symbol : String} {data rest : Bytes} {bars : List Bar}
    (hsize : LittleEndian.decodeInt (h.field 0 2 (by decide)) = 129)
    (hsymbol : h.text 2 64 = symbol)
    (hbars : containerBars ratio h (data ++ rest) = .ok (bars, rest)) :
    container ratio symbol (h.bytes ++ (data ++ rest)) = .ok (bars, rest) := by
  have hnew : Record.new h.bytes 129 = .ok h := dif_pos h.length_bytes
  unfold container
  rw [Decoder.bind_of_ok (Reader.take_append h.length_bytes), hnew]
  refine (Decoder.bind_of_ok rfl).trans ?_
  rw [if_neg (by simp [hsize, hsymbol])]
  exact hbars

/-- A reply with one container has its bars, keyed by their time. -/
theorem reply_eq {name : Record 64} {head body rest : Bytes} {bars : List Bar}
    (hhead : ReplyHead name head)
    (hcontainer : container ratio (name.text 0 64) (body ++ rest) = .ok (bars, rest)) :
    reply ratio (head ++ (body ++ rest)) =
      .ok (⟨name.text 0 64, ((Keyed.empty Bar.time).insertAll bars).items⟩, rest) := by
  have hname : Record.new name.bytes 64 = .ok name := dif_pos name.length_bytes
  have htimes : Decoder.times (container ratio (name.text 0 64)) 1 (body ++ rest) =
      .ok ([bars], rest) := (Decoder.bind_of_ok hcontainer).trans rfl
  have hbody : ∀ subtype more, containerCount subtype 0 more = .ok (1, body ++ rest) →
      replyBody ratio subtype (name.bytes ++ (0 :: 0 :: 0 :: 0 :: more)) =
        .ok (⟨name.text 0 64, ((Keyed.empty Bar.time).insertAll bars).items⟩, rest) := by
    intro subtype more hmore
    have hstatus : LittleEndian.decodeInt [0, 0, 0, 0] = 0 := by decide
    unfold replyBody
    rw [Decoder.bind_of_ok (Reader.take_append name.length_bytes), hname]
    refine (Decoder.bind_of_ok rfl).trans ?_
    rw [Decoder.bind_of_ok (Reader.i32_cons 0 0 0 0 more), hstatus, Decoder.bind_of_ok hmore,
      Decoder.bind_of_ok htimes, List.flatten_singleton]
    rfl
  cases hhead with
  | counted =>
    rw [List.cons_append, List.append_assoc]
    refine (Decoder.bind_of_ok (Reader.byte_cons 9 _)).trans (hbody 9 (1 :: 0 :: (body ++ rest)) ?_)
    unfold containerCount
    rw [if_pos ⟨rfl, rfl⟩, Decoder.bind_of_ok (Reader.u16_cons 1 0 _)]
    rfl
  | single a b =>
    rw [List.cons_append, List.append_assoc]
    refine (Decoder.bind_of_ok (Reader.byte_cons 14 _)).trans
      (hbody 14 (a :: b :: 0 :: 0 :: (body ++ rest)) ?_)
    unfold containerCount
    rw [if_neg (by decide), if_neg (by decide), if_pos ⟨rfl, rfl⟩,
      Decoder.bind_of_ok (Reader.u16_cons a b _), Decoder.bind_of_ok (Reader.u16_cons 0 0 _)]
    rfl

end Response

section Main

variable (ratio : Int → Nat → F64) {k limit digits : Nat} {tokens : List Token}

/-- A container of tokens is read as the bars that they stand for: in the order of
their times, and of the bars of one time the last one. -/
theorem decodeBarHistory_tokens (hk : 1 ≤ k ∧ k ≤ 8) (hdigits : digits ≤ 12)
    (hanchor : ∃ t ∈ tokens.head?, t.IsAnchor)
    (hfits : TokensFit limit .start tokens)
    (hcount : (barsOf ratio limit digits .start tokens).length ≤ 1000000)
    (htimes : ∀ b ∈ barsOf ratio limit digits .start tokens,
      -2 ^ 63 ≤ b.time ∧ b.time < 2 ^ 63) :
    ∃ w, writeTokens tokens (.withDigits k hk.1) = .ok ((), w) ∧
      ∀ name head h, ReplyHead name head →
        Declares h (name.text 0 64) w (barsOf ratio limit digits .start tokens).length limit
          digits →
        ∃ bars, decodeBarHistory ratio (head ++ (h.bytes ++ w.data)) =
            .ok [{ symbol := name.text 0 64, bars }] ∧
          bars.Pairwise (fun a b => a.time < b.time) ∧
          ∀ bar, bar ∈ bars ↔ ∃ front back,
            barsOf ratio limit digits .start tokens = front ++ bar :: back ∧
              ∀ b ∈ back, b.time ≠ bar.time := by
  obtain ⟨w, hwrite, hw⟩ := spells_writeTokens hk hfits hcount [] (.withDigits k hk.1) []
    (BitWriter.stands_withDigits hk.1 _)
  refine ⟨w, hwrite, fun name head h hhead hdeclares => ?_⟩
  refine ⟨((Keyed.empty Bar.time).insertAll (barsOf ratio limit digits .start tokens)).items, ?_,
    Keyed.sorted _, fun bar => Keyed.mem_empty_insertAll⟩
  obtain ⟨t, ht, hfirst⟩ := hanchor
  have hanchor : ∀ u ∈ tokens.head?, u.IsAnchor := fun u hu => Option.mem_unique ht hu ▸ hfirst
  have hbars := containerBars_eq hk hdigits hfits hanchor htimes hcount hw hdeclares []
  have hcontainer := container_eq hdeclares.headerSize hdeclares.symbol hbars
  rw [← List.append_assoc] at hcontainer
  have hreply := reply_eq hhead hcontainer
  rw [List.append_nil] at hreply
  exact (decodeBarHistory_eq_ok ratio).mpr
    (Decoder.times_succ_eq_ok.mpr ⟨_, [], [], rfl, hreply, rfl⟩)

/-- A bar with a spread, a gap of a minute behind an empty run, and a bar of a run. -/
def sampleTokens : List Token :=
  [.anchor 9 600 10000 ⟨20, 10, -3, 9, some 2, none, [7]⟩,
    .run [],
    .skip 1,
    .run [(5, ⟨12, 8, -2, 11, some 3, none, [-1]⟩)]]

/-- The symbol `X`. -/
def sampleName : Record 64 := ⟨88 :: List.replicate 63 0, by decide⟩

theorem decodeBarHistory_tokens_sample :
    ∃ w bars, writeTokens sampleTokens (.withDigits 2 (by decide)) = .ok ((), w) ∧
      decodeBarHistory (fun p d => ⟨(p + 1000 * d).toNat⟩)
        (9 :: (sampleName.bytes ++ [0, 0, 0, 0, 1, 0]) ++
          ((barHeader sampleName w 2 3 2).bytes ++ w.data)) =
        .ok [{ symbol := sampleName.text 0 64, bars }] ∧
      bars.Pairwise (fun a b => a.time < b.time) ∧
      ⟨600, ⟨12000⟩, ⟨12020⟩, ⟨11990⟩, ⟨11997⟩, 9, 0, 2⟩ ∈ bars ∧
      ⟨720, ⟨12012⟩, ⟨12048⟩, ⟨11988⟩, ⟨12006⟩, 11, 0, 3⟩ ∈ bars := by
  have hbars : barsOf (fun p d => ⟨(p + 1000 * d).toNat⟩) 3 2 .start sampleTokens =
      [⟨600, ⟨12000⟩, ⟨12020⟩, ⟨11990⟩, ⟨11997⟩, 9, 0, 2⟩,
        ⟨720, ⟨12012⟩, ⟨12048⟩, ⟨11988⟩, ⟨12006⟩, 11, 0, 3⟩] := by decide +kernel
  have hfits : TokensFit 3 .start sampleTokens := by
    have hskip : InStorage 64 true 1 := by decide
    refine ⟨⟨by decide, by decide, by decide, by decide, ?_⟩, nofun, hskip, ?_, trivial⟩
    · exact ⟨by decide, by decide, by decide, by decide, by decide, by decide, by decide, nofun,
        by decide, by decide⟩
    · refine List.forall_mem_singleton.mpr ⟨by decide, ?_⟩
      exact ⟨by decide, by decide, by decide, by decide, by decide, by decide, by decide, nofun,
        by decide, by decide⟩
  have hanchor : ∃ t ∈ sampleTokens.head?, t.IsAnchor := by
    refine ⟨_, rfl, ?_⟩
    trivial
  have hcount : (barsOf (fun p d => ⟨(p + 1000 * d).toNat⟩) 3 2 .start sampleTokens).length ≤
      1000000 := by
    rw [hbars]
    decide
  obtain ⟨w, hwrite, hread⟩ :=
    decodeBarHistory_tokens (fun p d => ⟨(p + 1000 * d).toNat⟩) (show 1 ≤ 2 ∧ 2 ≤ 8 by decide)
      (show 2 ≤ 12 by decide) hanchor hfits hcount (by rw [hbars]; decide)
  -- The header declares as many bits as the tokens have.
  obtain ⟨u, hwrite', hk, hposition, hdata⟩ := spells_writeTokens (show 1 ≤ 2 ∧ 2 ≤ 8 by decide)
    hfits hcount [] (.withDigits 2 (by decide)) [] (BitWriter.stands_withDigits (by decide) _)
  obtain rfl : w = u := congrArg Prod.snd (Except.ok.inj (hwrite.symm.trans hwrite'))
  have hlength : (sampleTokens.flatMap (Token.bits 2)).length = 224 := by decide +kernel
  rw [List.nil_append, hlength] at hposition
  have hsize : w.data.length = 28 := by
    rw [hdata, List.nil_append, length_toBytes, hlength]
  rw [hbars] at hread
  obtain ⟨bars, hdecode, hsorted, hmem⟩ := hread sampleName _ _ .counted
    (declares_barHeader (by omega) (by omega) (by omega) (by decide) (by decide) (by decide))
  exact ⟨w, bars, hwrite, hdecode, hsorted, (hmem _).mpr ⟨[], _, rfl, by decide⟩,
    (hmem _).mpr ⟨[_], [], rfl, nofun⟩⟩

end Main

end Mt5Open.Native.Bars

import Mathlib.Algebra.BigOperators.Group.List.Basic
import Mathlib.Data.List.Induction
import Mathlib.Tactic.Ring
import Mt5Open.Double
import Mt5Open.Native.Records

/-!
# Retail margin

The margin of the positions and the pending orders of one symbol in the account
currency.  Conversion rates are supplied by the caller.

The exposures are added up in legs, one for each side and one for each pending type,
and only the legs go into the formulas.  `book_eq` is what the legs hold: the volume and
the weighted sums of a kind, in which the order of the list and the way that a volume is
divided do not show.  `hedgingMargin_alike` carries that through both hedging methods.

Numbers are exact, and what is not a number stays an infinity or NaN.
-/

namespace Mt5Open.Native.Margin

open Lib

abbrev Number := Extended ℚ

/-- The group margin flag that makes the larger leg count. -/
def HEDGED_LARGER_LEG : Nat := 4

structure Exposure where
  kind : Nat
  volumeUnits : Nat
  price : Number
  conversion : Number
  deriving DecidableEq

/-! ## The formulas -/

/-- The formula of a calculation mode. -/
def base (s : Symbol) (lots price : Number) (leverage : Int) (fixed : Option Number)
    (contract : Number) : Option Number :=
  if s.calculationMode = 0 ∧ 0 < leverage then
    some (lots * fixed.getD contract / .finite leverage)
  else if s.calculationMode = 5 then some (lots * fixed.getD contract)
  else if s.calculationMode ∈ [2, 32, 36] then some (lots * fixed.getD (contract * price))
  else if s.calculationMode = 4 ∧ 0 < leverage then
    some (lots * fixed.getD (contract * price) / .finite leverage)
  else if s.calculationMode = 3 ∧ .finite 0 < s.tickSize.value then
    some (lots * fixed.getD (contract * price * s.tickValue.value / s.tickSize.value))
  else if s.calculationMode ∈ [1, 33] then some (lots * fixed.getD (.finite 0))
  else none

/-- `(x.is_finite() && x >= 0.0).then_some(x)`. -/
def nonnegative (x : Number) : Option Number :=
  if x.isFinite ∧ .finite 0 ≤ x then some x else none

def amount (s : Symbol) (lots price : Number) (leverage : Int) (fixed : Option Number)
    (contract : Number) : Option Number :=
  if !lots.isFinite ∨ lots < .finite 0 ∨ !price.isFinite ∨ price ≤ .finite 0 ∨
      !contract.isFinite ∨ contract < .finite 0 ∨
      fixed.any (fun f => !f.isFinite ∨ f < .finite 0) then none
  else (base s lots price leverage fixed contract).bind nonnegative

def validTerms (s : Symbol) : Bool :=
  s.marginFlags &&& (2 ^ 32 - 1 - HEDGED_LARGER_LEG) = 0 ∧
    [s.initialMargin, s.maintenanceMargin, s.hedgedMargin].all fun x =>
      x.isFinite ∧ .finite 0 ≤ x.value

/-- Unconverted margin for an order or an existing position. -/
def orderMargin (s : Symbol) (lots price : Number) (kind : Nat) (leverage : Int)
    (maintenance : Bool) : Option Number :=
  if !validTerms s then none
  else do
    let rate ← (if maintenance then s.maintenanceMarginRates else s.marginRates)[kind]?
    if !rate.isFinite ∨ rate.value < .finite 0 then none
    else
      let fixed :=
        if maintenance ∧ .finite 0 < s.maintenanceMargin.value then
          some s.maintenanceMargin.value
        else if .finite 0 < s.initialMargin.value then some s.initialMargin.value
        else none
      let unconverted ← amount s lots price leverage fixed s.contractSize.value
      nonnegative (unconverted * rate.value)

/-! ## Legs -/

structure Leg where
  units : Nat := 0
  priceSum : Number := .finite 0
  conversionSum : Number := .finite 0
  deriving DecidableEq

/-- `unsupported`. -/
def unsupported {α : Type} : Result α := reject "unsupported native retail margin terms"

namespace Leg

/-- `Leg::add`. -/
def add (leg : Leg) (e : Exposure) : Result Leg :=
  if !e.price.isFinite ∨ e.price ≤ .finite 0 ∨ !e.conversion.isFinite ∨
      e.conversion ≤ .finite 0 then
    reject "margin requires a positive price and currency conversion"
  else if leg.units + e.volumeUnits < 2 ^ 64 then
    .ok
      { units := leg.units + e.volumeUnits
        priceSum := leg.priceSum + e.price * .finite e.volumeUnits
        conversionSum := leg.conversionSum + e.conversion * .finite e.volumeUnits }
  else reject "margin volume overflow"

def price (leg : Leg) : Number := leg.priceSum / .finite leg.units

def conversion (leg : Leg) : Number := leg.conversionSum / .finite leg.units

/-- Units in lots. -/
def lotsOf (units : Nat) : Number := .finite units / .finite (10 ^ 8)

/-- `Leg::margin`. -/
def margin (leg : Leg) (s : Symbol) (kind : Nat) (leverage : Int) (maintenance : Bool) :
    Result Number :=
  if leg.units = 0 then .ok (.finite 0)
  else
    match orderMargin s (lotsOf leg.units) leg.price kind leverage maintenance with
    | some v => .ok (v * leg.conversion)
    | none => unsupported

end Leg

/-- One round of the loops over the exposures, whose kinds begin at `first`. -/
def addTo {n : Nat} (first : Nat) (message : String) (legs : Vector Leg n) (e : Exposure) :
    Result (Vector Leg n) :=
  if h : first ≤ e.kind ∧ e.kind < n then do
    let leg ← legs[e.kind].add e
    return legs.set e.kind leg
  else reject message

/-- The legs of a list of exposures. -/
def book (n first : Nat) (message : String) (exposures : List Exposure) :
    Result (Vector Leg n) :=
  exposures.foldlM (addTo first message) (Vector.replicate n {})

def positionLegs (positions : List Exposure) : Result (Vector Leg 2) :=
  book 2 0 "invalid position margin side" positions

def pendingLegs (orders : List Exposure) : Result (Vector Leg 8) :=
  book 8 2 "invalid pending margin type" orders

/-! ## Hedging -/

/-- The margin of the pending orders on each side.  A zero rate does not require an
otherwise unused formula. -/
def pendingBySide (s : Symbol) (leverage : Int) (pending : Vector Leg 8) :
    Result (Number × Number) :=
  ([2, 3, 4, 5, 6, 7] : List (Fin 8)).foldlM
    (fun bySide kind =>
      if s.marginRates[kind].value ≠ .finite 0 then do
        let v ← pending[kind].margin s kind leverage false
        return if kind.val % 2 = 0 then (bySide.1 + v, bySide.2) else (bySide.1, bySide.2 + v)
      else return bySide)
    (.finite 0, .finite 0)

/-- The margin of the larger leg, pending orders included. -/
def largerLegMargin (s : Symbol) (leverage : Int) (legs : Vector Leg 2)
    (pending : Number × Number) : Result Number := do
  let buy ← legs[0].margin s 0 leverage true
  let sell ← legs[1].margin s 1 leverage true
  return (buy + pending.1).max (sell + pending.2)

/-- The margin of the uncovered volume, on the side of the larger leg. -/
def uncoveredMargin (s : Symbol) (leverage : Int) (legs : Vector Leg 2) : Result Number :=
  let larger : Fin 2 := if legs[0].units < legs[1].units then 1 else 0
  let uncovered := legs[larger].units - min legs[0].units legs[1].units
  if 0 < uncovered then
    match orderMargin s (Leg.lotsOf uncovered) legs[larger].price larger leverage true with
    | some v => .ok (v * legs[larger].conversion)
    | none => unsupported
  else .ok (.finite 0)

/-- The margin of the covered volume, at the averages of both legs. -/
def coveredMargin (s : Symbol) (leverage : Int) (legs : Vector Leg 2) : Result Number :=
  let covered := min legs[0].units legs[1].units
  if 0 < covered ∧ s.hedgedMargin.value ≠ .finite 0 then
    if legs[0].units + legs[1].units < 2 ^ 64 then
      let units : Number := .finite (legs[0].units + legs[1].units : Nat)
      let price := (legs[0].priceSum + legs[1].priceSum) / units
      let conversion := (legs[0].conversionSum + legs[1].conversionSum) / units
      let rate :=
        ((s.maintenanceMarginRates.get 0).value + (s.maintenanceMarginRates.get 1).value) /
          .finite 2
      if !rate.isFinite ∨ rate < .finite 0 then unsupported
      else
        let fixed :=
          if .finite 0 < s.initialMargin.value then some s.hedgedMargin.value else none
        match amount s (Leg.lotsOf covered) price leverage fixed s.hedgedMargin.value with
        | some v => .ok (v * rate * conversion)
        | none => unsupported
    else reject "margin volume overflow"
  else .ok (.finite 0)

/-- The margin of what is covered and of what is not, pending orders included. -/
def coverMargin (s : Symbol) (leverage : Int) (legs : Vector Leg 2)
    (pending : Number × Number) : Result Number := do
  let uncovered ← uncoveredMargin s leverage legs
  let covered ← coveredMargin s leverage legs
  return pending.1 + pending.2 + uncovered + covered

/-- The margin of the legs: the second half of `hedging_margin`. -/
def legsMargin (s : Symbol) (leverage : Int) (legs : Vector Leg 2) (pending : Vector Leg 8) :
    Result Number := do
  let bySide ← pendingBySide s leverage pending
  let total ← (
    if s.marginFlags &&& HEDGED_LARGER_LEG ≠ 0 then largerLegMargin s leverage legs bySide
    else coverMargin s leverage legs bySide)
  if total.isFinite ∧ .finite 0 ≤ total then return total else unsupported

/-- Both documented retail hedging methods. -/
def hedgingMargin (s : Symbol) (leverage : Int) (positions orders : List Exposure) :
    Result Number :=
  if !validTerms s then unsupported
  else do
    let legs ← positionLegs positions
    let pending ← pendingLegs orders
    legsMargin s leverage legs pending

/-! ## What the legs hold -/

/-- The price and the conversion can be added up. -/
def Exposure.Priced (e : Exposure) : Prop :=
  ∃ price conversion : ℚ, 0 < price ∧ 0 < conversion ∧ e.price = .finite price ∧
    e.conversion = .finite conversion

/-- The number of a finite number. -/
def number : Number → ℚ
  | .finite x => x
  | _ => 0

/-- The volume of a kind. -/
def units (exposures : List Exposure) (kind : Nat) : Nat :=
  ((exposures.filter fun e => e.kind = kind).map Exposure.volumeUnits).sum

/-- A sum over a kind, weighted by the volumes. -/
def weighted (value : Exposure → Number) (exposures : List Exposure) (kind : Nat) : ℚ :=
  ((exposures.filter fun e => e.kind = kind).map fun e => number (value e) * e.volumeUnits).sum

/-- The leg of a kind. -/
def legOf (exposures : List Exposure) (kind : Nat) : Leg where
  units := units exposures kind
  priceSum := .finite (weighted Exposure.price exposures kind)
  conversionSum := .finite (weighted Exposure.conversion exposures kind)

/-- Every exposure can be added to its leg, and no volume overflows. -/
structure Bookable (n first : Nat) (exposures : List Exposure) : Prop where
  kinds : ∀ e ∈ exposures, first ≤ e.kind ∧ e.kind < n
  priced : ∀ e ∈ exposures, e.Priced
  fits : ∀ kind, units exposures kind < 2 ^ 64

theorem units_append (front back : List Exposure) (kind : Nat) :
    units (front ++ back) kind = units front kind + units back kind := by
  rw [units, List.filter_append, List.map_append, List.sum_append]
  rfl

theorem units_cons (e : Exposure) (exposures : List Exposure) (kind : Nat) :
    units (e :: exposures) kind =
      (if e.kind = kind then e.volumeUnits else 0) + units exposures kind := by
  unfold units
  by_cases h : e.kind = kind
  · simp [h]
  · simp [h]

theorem weighted_append (value : Exposure → Number) (front back : List Exposure) (kind : Nat) :
    weighted value (front ++ back) kind = weighted value front kind + weighted value back kind := by
  rw [weighted, List.filter_append, List.map_append, List.sum_append]
  rfl

theorem weighted_cons (value : Exposure → Number) (e : Exposure) (exposures : List Exposure)
    (kind : Nat) :
    weighted value (e :: exposures) kind =
      (if e.kind = kind then number (value e) * e.volumeUnits else 0) +
        weighted value exposures kind := by
  unfold weighted
  by_cases h : e.kind = kind
  · simp [h]
  · simp [h]

@[simp] theorem units_nil (kind : Nat) : units [] kind = 0 := rfl

@[simp] theorem weighted_nil (value : Exposure → Number) (kind : Nat) :
    weighted value [] kind = 0 := rfl

theorem units_concat (exposures : List Exposure) (e : Exposure) (kind : Nat) :
    units (exposures ++ [e]) kind =
      units exposures kind + if e.kind = kind then e.volumeUnits else 0 := by
  rw [units_append, units_cons, units_nil, Nat.add_zero]

theorem weighted_concat (value : Exposure → Number) (exposures : List Exposure) (e : Exposure)
    (kind : Nat) :
    weighted value (exposures ++ [e]) kind =
      weighted value exposures kind +
        if e.kind = kind then number (value e) * e.volumeUnits else 0 := by
  rw [weighted_append, weighted_cons, weighted_nil, add_zero]

theorem bookable_concat {n first : Nat} {exposures : List Exposure} {e : Exposure} :
    Bookable n first (exposures ++ [e]) ↔
      Bookable n first exposures ∧ (first ≤ e.kind ∧ e.kind < n) ∧ e.Priced ∧
        units exposures e.kind + e.volumeUnits < 2 ^ 64 := by
  constructor
  · rintro ⟨hkinds, hpriced, hfits⟩
    refine ⟨⟨fun a ha => hkinds a (List.mem_append_left _ ha),
      fun a ha => hpriced a (List.mem_append_left _ ha), fun kind => ?_⟩,
      hkinds e (by simp), hpriced e (by simp), ?_⟩
    · have h := hfits kind
      rw [units_concat] at h
      omega
    · have h := hfits e.kind
      rwa [units_concat, if_pos rfl] at h
  · rintro ⟨⟨hkinds, hpriced, hfits⟩, hkind, hprice, hsum⟩
    refine ⟨?_, ?_, fun kind => ?_⟩
    · intro a ha
      rcases List.mem_append.mp ha with ha | ha
      · exact hkinds a ha
      · rwa [List.mem_singleton.mp ha]
    · intro a ha
      rcases List.mem_append.mp ha with ha | ha
      · exact hpriced a ha
      · rwa [List.mem_singleton.mp ha]
    · rw [units_concat]
      by_cases h : e.kind = kind
      · rw [if_pos h, ← h]
        exact hsum
      · rw [if_neg h]
        exact hfits kind

theorem Exposure.not_priced_iff (e : Exposure) :
    (!e.price.isFinite ∨ e.price ≤ .finite 0 ∨ !e.conversion.isFinite ∨
      e.conversion ≤ .finite 0) ↔ ¬e.Priced := by
  have hpositive : ∀ x : Number, (!x.isFinite ∨ x ≤ .finite 0) ↔
      ¬∃ q : ℚ, 0 < q ∧ x = .finite q := by
    intro x
    cases x with
    | finite q => simp
    | nan => simp [Extended.isFinite]
    | infinite negative => simp [Extended.isFinite]
  rw [← or_assoc, hpositive, hpositive, ← not_and_or, Exposure.Priced]
  refine not_congr ⟨?_, ?_⟩
  · rintro ⟨⟨p, hp, hprice⟩, c, hc, hconversion⟩
    exact ⟨p, c, hp, hc, hprice, hconversion⟩
  · rintro ⟨p, c, hp, hc, hprice, hconversion⟩
    exact ⟨⟨p, hp, hprice⟩, c, hc, hconversion⟩

/-- A leg takes an exposure when it is priced and the volume fits. -/
theorem add_legOf {exposures : List Exposure} {e : Exposure} {leg : Leg} :
    (legOf exposures e.kind).add e = .ok leg ↔
      e.Priced ∧ units exposures e.kind + e.volumeUnits < 2 ^ 64 ∧
        leg = legOf (exposures ++ [e]) e.kind := by
  rw [Leg.add]
  by_cases hpriced : e.Priced
  · rw [if_neg fun h => (Exposure.not_priced_iff e).mp h hpriced]
    obtain ⟨p, c, -, -, hprice, hconversion⟩ := id hpriced
    by_cases hfits : units exposures e.kind + e.volumeUnits < 2 ^ 64
    · rw [if_pos (by exact hfits), Except.ok.injEq]
      simp only [hpriced, hfits, true_and, legOf, units_concat, weighted_concat, hprice,
        hconversion, number, if_pos, Extended.finite_mul, Extended.finite_add]
      exact eq_comm
    · rw [if_neg (by exact hfits)]
      exact ⟨nofun, fun h => absurd h.2.1 hfits⟩
  · rw [if_pos ((Exposure.not_priced_iff e).mpr hpriced)]
    exact ⟨nofun, fun h => absurd h.1 hpriced⟩

/-- A kind that the last exposure does not have keeps its leg. -/
theorem legOf_concat_of_ne {exposures : List Exposure} {e : Exposure} {kind : Nat}
    (h : e.kind ≠ kind) : legOf (exposures ++ [e]) kind = legOf exposures kind := by
  simp [legOf, units_concat, weighted_concat, h]

theorem addTo_eq_ok {n first : Nat} {message : String} {exposures : List Exposure} {e : Exposure}
    {legs : Vector Leg n} :
    addTo first message (Vector.ofFn fun kind : Fin n => legOf exposures kind) e = .ok legs ↔
      (first ≤ e.kind ∧ e.kind < n) ∧ e.Priced ∧
        units exposures e.kind + e.volumeUnits < 2 ^ 64 ∧
        legs = Vector.ofFn fun kind : Fin n => legOf (exposures ++ [e]) kind := by
  have hset : ∀ h : e.kind < n,
      (Vector.ofFn fun kind : Fin n => legOf exposures kind).set e.kind
        (legOf (exposures ++ [e]) e.kind) =
      Vector.ofFn fun kind : Fin n => legOf (exposures ++ [e]) kind := by
    intro h
    ext1 kind hkind
    rw [Vector.getElem_set, Vector.getElem_ofFn, Vector.getElem_ofFn]
    split
    · rename_i heq
      rw [heq]
    · rename_i hne
      exact (legOf_concat_of_ne hne).symm
  unfold addTo
  by_cases hkind : first ≤ e.kind ∧ e.kind < n
  · rw [dif_pos hkind, Vector.getElem_ofFn]
    constructor
    · intro h
      obtain ⟨leg, hadd, h⟩ := except_bind_eq_ok.mp h
      obtain ⟨hpriced, hfits, rfl⟩ := add_legOf.mp hadd
      cases h
      exact ⟨hkind, hpriced, hfits, hset hkind.2⟩
    · rintro ⟨-, hpriced, hfits, rfl⟩
      rw [add_legOf.mpr ⟨hpriced, hfits, rfl⟩, ← hset hkind.2]
      rfl
  · rw [dif_neg hkind]
    exact ⟨nofun, fun h => absurd h.1 hkind⟩

/-- The legs of a list of exposures. -/
theorem book_eq_ok {n first : Nat} {message : String} {exposures : List Exposure}
    {legs : Vector Leg n} :
    book n first message exposures = .ok legs ↔
      Bookable n first exposures ∧ legs = Vector.ofFn fun kind : Fin n => legOf exposures kind := by
  induction exposures using List.reverseRecOn generalizing legs with
  | nil =>
    have hempty : Vector.replicate n ({} : Leg) =
        Vector.ofFn fun kind : Fin n => legOf [] kind := by
      ext1 kind hkind
      rw [Vector.getElem_replicate, Vector.getElem_ofFn]
      rfl
    have hbookable : Bookable n first [] := ⟨nofun, nofun, fun _ => Nat.two_pow_pos 64⟩
    show Except.ok _ = Except.ok legs ↔ _
    rw [Except.ok.injEq, hempty, and_iff_right hbookable]
    exact eq_comm
  | append_singleton exposures e ih =>
    have hsplit : book n first message (exposures ++ [e]) =
        book n first message exposures >>= fun legs => addTo first message legs e := by
      rw [book, List.foldlM_append]
      simp [book]
    rw [hsplit, bookable_concat]
    constructor
    · intro h
      obtain ⟨front, hbook, h⟩ := except_bind_eq_ok.mp h
      obtain ⟨hbookable, rfl⟩ := ih.mp hbook
      obtain ⟨hkind, hpriced, hfits, hlegs⟩ := addTo_eq_ok.mp h
      exact ⟨⟨hbookable, hkind, hpriced, hfits⟩, hlegs⟩
    · rintro ⟨⟨hbookable, hkind, hpriced, hfits⟩, hlegs⟩
      rw [ih.mpr ⟨hbookable, rfl⟩]
      exact addTo_eq_ok.mpr ⟨hkind, hpriced, hfits, hlegs⟩

/-! ## Lists that the legs cannot tell apart -/

structure Alike (n first : Nat) (exposures others : List Exposure) : Prop where
  bookable : Bookable n first exposures ↔ Bookable n first others
  legs : ∀ kind, legOf exposures kind = legOf others kind

theorem Alike.refl (n first : Nat) (exposures : List Exposure) :
    Alike n first exposures exposures := ⟨Iff.rfl, fun _ => rfl⟩

/-- Lists with the same legs whose exposures pass the same checks. -/
theorem Alike.of_legs {n first : Nat} {exposures others : List Exposure}
    (hchecks : (∀ e ∈ exposures, (first ≤ e.kind ∧ e.kind < n) ∧ e.Priced) ↔
      ∀ e ∈ others, (first ≤ e.kind ∧ e.kind < n) ∧ e.Priced)
    (hlegs : ∀ kind, legOf exposures kind = legOf others kind) :
    Alike n first exposures others := by
  have hunits : ∀ kind, units exposures kind = units others kind := fun kind =>
    congrArg Leg.units (hlegs kind)
  refine ⟨?_, hlegs⟩
  constructor
  · rintro ⟨hkinds, hpriced, hfits⟩
    have h := hchecks.mp fun e he => ⟨hkinds e he, hpriced e he⟩
    exact ⟨fun e he => (h e he).1, fun e he => (h e he).2, fun kind => hunits kind ▸ hfits kind⟩
  · rintro ⟨hkinds, hpriced, hfits⟩
    have h := hchecks.mpr fun e he => ⟨hkinds e he, hpriced e he⟩
    exact ⟨fun e he => (h e he).1, fun e he => (h e he).2,
      fun kind => (hunits kind).symm ▸ hfits kind⟩

theorem Alike.of_perm {n first : Nat} {exposures others : List Exposure}
    (h : exposures.Perm others) : Alike n first exposures others := by
  refine .of_legs ⟨fun hall e he => hall e (h.mem_iff.mpr he),
    fun hall e he => hall e (h.mem_iff.mp he)⟩ fun kind => ?_
  have hfilter := h.filter fun e => e.kind = kind
  simp only [legOf, units, weighted, (hfilter.map _).sum_eq]

/-- An exposure of one volume in two parts. -/
structure Splits (e first second : Exposure) : Prop where
  kind_first : first.kind = e.kind
  kind_second : second.kind = e.kind
  price_first : first.price = e.price
  price_second : second.price = e.price
  conversion_first : first.conversion = e.conversion
  conversion_second : second.conversion = e.conversion
  volume : first.volumeUnits + second.volumeUnits = e.volumeUnits

theorem Alike.of_splits {n first : Nat} {e e₁ e₂ : Exposure} (h : Splits e e₁ e₂)
    (front back : List Exposure) :
    Alike n first (front ++ e :: back) (front ++ e₁ :: e₂ :: back) := by
  refine .of_legs ?_ fun kind => ?_
  · simp only [List.forall_mem_append, List.forall_mem_cons, Exposure.Priced, h.kind_first,
      h.kind_second, h.price_first, h.price_second, h.conversion_first, h.conversion_second,
      and_self_left]
  · simp only [legOf, units_append, units_cons, weighted_append, weighted_cons, h.kind_first,
      h.kind_second, h.price_first, h.price_second, h.conversion_first, h.conversion_second,
      ← h.volume]
    by_cases hkind : e.kind = kind
    · simp only [hkind, if_pos]
      push_cast
      congr 1
      · ring
      · ring_nf
      · ring_nf
    · simp [hkind]

/-- A valid exposure without volume. -/
structure Idle (n first : Nat) (e : Exposure) : Prop where
  kind : first ≤ e.kind ∧ e.kind < n
  priced : e.Priced
  volume : e.volumeUnits = 0

theorem Alike.of_idle {n first : Nat} {idle : List Exposure} (h : ∀ e ∈ idle, Idle n first e)
    (exposures : List Exposure) : Alike n first exposures (exposures ++ idle) := by
  refine .of_legs ?_ fun kind => ?_
  · rw [List.forall_mem_append, and_iff_left fun e he => ⟨(h e he).kind, (h e he).priced⟩]
  · have hvolume : ∀ e ∈ idle, e.volumeUnits = 0 := fun e he => (h e he).volume
    have hunits : units idle kind = 0 := by
      rw [units, List.sum_eq_zero]
      simp +contextual [hvolume]
    have hweighted : ∀ value, weighted value idle kind = 0 := by
      intro value
      rw [weighted, List.sum_eq_zero]
      simp +contextual [hvolume]
    simp only [legOf, units_append, weighted_append, hunits, hweighted, add_zero]

theorem toOption_eq {α : Type} {x y : Result α} (h : ∀ a, x = .ok a ↔ y = .ok a) :
    x.toOption = y.toOption := by
  cases x with
  | ok a => rw [(h a).mp rfl]
  | error e =>
    cases y with
    | ok b => cases (h b).mpr rfl
    | error e' => rfl

theorem toOption_bind {α β : Type} (x : Result α) (f : α → Result β) :
    (x >>= f).toOption = x.toOption.bind fun a => (f a).toOption := by
  cases x with
  | ok a => rfl
  | error e => rfl

theorem Alike.toOption_book {n first : Nat} {exposures others : List Exposure}
    (h : Alike n first exposures others) (message : String) :
    (book n first message exposures).toOption = (book n first message others).toOption := by
  refine toOption_eq fun legs => ?_
  simp only [book_eq_ok, h.bookable, h.legs]

/-- Lists that the legs cannot tell apart have one margin, or none of them has one. -/
theorem hedgingMargin_alike (s : Symbol) (leverage : Int)
    {positions positions' orders orders' : List Exposure}
    (hpositions : Alike 2 0 positions positions') (horders : Alike 8 2 orders orders') :
    (hedgingMargin s leverage positions orders).toOption =
      (hedgingMargin s leverage positions' orders').toOption := by
  unfold hedgingMargin
  by_cases hterms : validTerms s
  · simp only [hterms, Bool.not_true, Bool.false_eq_true, if_false, toOption_bind, positionLegs,
      pendingLegs, hpositions.toOption_book, horders.toOption_book]
  · simp [hterms]

/-- The margin is a number that is not negative. -/
theorem hedgingMargin_nonneg {s : Symbol} {leverage : Int} {positions orders : List Exposure}
    {v : Number} (h : hedgingMargin s leverage positions orders = .ok v) :
    ∃ q : ℚ, 0 ≤ q ∧ v = .finite q := by
  unfold hedgingMargin at h
  split at h
  · cases h
  · obtain ⟨legs, -, h⟩ := except_bind_eq_ok.mp h
    obtain ⟨pending, -, h⟩ := except_bind_eq_ok.mp h
    obtain ⟨bySide, -, h⟩ := except_bind_eq_ok.mp h
    obtain ⟨total, -, h⟩ := except_bind_eq_ok.mp h
    split at h
    · rename_i htotal
      cases h
      obtain ⟨q, rfl⟩ := Extended.isFinite_iff.mp htotal.1
      exact ⟨q, Extended.finite_le.mp htotal.2, rfl⟩
    · cases h

/-- The margin does not depend on how the exposures are listed: their order, a division of
one volume, and exposures without volume do not change it.  It is never negative. -/
theorem hedgingMargin_listing (s : Symbol) (leverage : Int) :
    (∀ positions positions' orders orders' : List Exposure, positions.Perm positions' →
      orders.Perm orders' →
      (hedgingMargin s leverage positions orders).toOption =
        (hedgingMargin s leverage positions' orders').toOption) ∧
    (∀ (e first second : Exposure) (front back others : List Exposure), Splits e first second →
      (hedgingMargin s leverage (front ++ e :: back) others).toOption =
          (hedgingMargin s leverage (front ++ first :: second :: back) others).toOption ∧
        (hedgingMargin s leverage others (front ++ e :: back)).toOption =
          (hedgingMargin s leverage others (front ++ first :: second :: back)).toOption) ∧
    (∀ positions orders idlePositions idleOrders : List Exposure,
      (∀ e ∈ idlePositions, Idle 2 0 e) → (∀ e ∈ idleOrders, Idle 8 2 e) →
      (hedgingMargin s leverage positions orders).toOption =
        (hedgingMargin s leverage (positions ++ idlePositions) (orders ++ idleOrders)).toOption) ∧
    ∀ positions orders v, hedgingMargin s leverage positions orders = .ok v →
      ∃ q : ℚ, 0 ≤ q ∧ v = .finite q := by
  refine ⟨?_, ?_, ?_, fun positions orders v h => hedgingMargin_nonneg h⟩
  · intro positions positions' orders orders' hpositions horders
    exact hedgingMargin_alike s leverage (.of_perm hpositions) (.of_perm horders)
  · intro e first second front back others hsplits
    exact ⟨hedgingMargin_alike s leverage (.of_splits hsplits front back) (.refl 8 2 others),
      hedgingMargin_alike s leverage (.refl 2 0 others) (.of_splits hsplits front back)⟩
  · intro positions orders idlePositions idleOrders hpositions horders
    exact hedgingMargin_alike s leverage (.of_idle hpositions positions) (.of_idle horders orders)

/-- A forex symbol with a contract of 1024 and rates of 1. -/
def sampleSymbol : Symbol where
  id := 1
  name := "EURUSD"
  digits := 5
  point := .zero
  contractSize := ⟨0x4090000000000000⟩
  tickSize := .zero
  tickValue := .zero
  profitCurrency := "USD"
  baseCurrency := "EUR"
  marginCurrency := "EUR"
  calculationMode := 0
  executionMode := 0
  tradeMode := 0
  fillingFlags := 0
  orderFlags := 0
  volumeMin := 0
  volumeMax := 0
  volumeStep := 0
  stopsLevel := 0
  freezeLevel := 0
  initialMargin := .zero
  maintenanceMargin := .zero
  marginRates := Vector.replicate 8 ⟨0x3ff0000000000000⟩
  maintenanceMarginRates := Vector.replicate 8 ⟨0x3ff0000000000000⟩
  expirationFlags := 0
  marginFlags := 0
  hedgedMargin := ⟨0x4090000000000000⟩

/-- An exposure of so many lots at a price of 1. -/
def sampleExposure (kind lots : Nat) : Exposure := ⟨kind, lots * 10 ^ 8, .finite 1, .finite 1⟩

theorem sampleExposure_priced (kind lots : Nat) : (sampleExposure kind lots).Priced :=
  ⟨1, 1, one_pos, one_pos, rfl, rfl⟩

/-- Two lots against three and one pending lot are listed in three other ways. -/
theorem hedgingMargin_listing_sample :
    hedgingMargin sampleSymbol 1 [sampleExposure 0 2, sampleExposure 1 3] [sampleExposure 2 1] =
        .ok (.finite 4096) ∧
      (hedgingMargin sampleSymbol 1 [sampleExposure 1 3, sampleExposure 0 2]
        [sampleExposure 2 1]).toOption = some (.finite 4096) ∧
      (hedgingMargin sampleSymbol 1
        [sampleExposure 0 1, sampleExposure 0 1, sampleExposure 1 3]
        [sampleExposure 2 1]).toOption = some (.finite 4096) ∧
      (hedgingMargin sampleSymbol 1 ([sampleExposure 0 2, sampleExposure 1 3] ++
        [sampleExposure 1 0]) ([sampleExposure 2 1] ++ [])).toOption = some (.finite 4096) ∧
      ∃ q : ℚ, 0 ≤ q ∧ (.finite 4096 : Number) = .finite q := by
  have hmargin : hedgingMargin sampleSymbol 1 [sampleExposure 0 2, sampleExposure 1 3]
      [sampleExposure 2 1] = .ok (.finite 4096) := by decide +kernel
  obtain ⟨hperm, hsplit, hidle, hnonneg⟩ := hedgingMargin_listing sampleSymbol 1
  refine ⟨hmargin, ?_, ?_, ?_, hnonneg _ _ _ hmargin⟩
  · rw [hperm _ [sampleExposure 0 2, sampleExposure 1 3] _ _ (.swap _ _ _) (.refl _), hmargin]
    rfl
  · have h := (hsplit (sampleExposure 0 2) (sampleExposure 0 1) (sampleExposure 0 1) []
      [sampleExposure 1 3] [sampleExposure 2 1] ⟨rfl, rfl, rfl, rfl, rfl, rfl, rfl⟩).1
    exact h.symm.trans (congrArg Except.toOption hmargin)
  · rw [← hidle _ _ [sampleExposure 1 0] [] ?_ nofun]
    · exact congrArg Except.toOption hmargin
    · intro e he
      rw [List.mem_singleton.mp he]
      exact ⟨by decide, sampleExposure_priced 1 0, rfl⟩

end Mt5Open.Native.Margin

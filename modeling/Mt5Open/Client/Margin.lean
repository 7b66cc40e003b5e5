import Mathlib.Algebra.BigOperators.Group.List.Basic
import Mathlib.Algebra.Order.Round
import Mathlib.Data.Rat.Floor
import Mathlib.Data.String.Basic
import Mt5Open.Client.Conversion
import Mt5Open.Lib.Grouping
import Mt5Open.Native.Margin

/-!
# The margin of an account

`Client::margin` reads the exposures of the positions and of the pending orders, puts
them under their symbols and adds up the margins of the symbols.  An order is converted
with the quotes of the client, and a position has its rate from the broker.

`margin_by_symbol` says that this is a sum over the symbols, in which the order of the
account does not show.  Numbers are exact here but for the last step, which rounds to the
digits of the account currency.
-/

namespace Mt5Open.Native.Client

open Lib Margin

/-- An exposure under its symbol. -/
structure Item where
  symbol : String
  pending : Bool
  exposure : Exposure

/-- The exposures of one symbol. -/
structure Exposed where
  symbol : String
  positions : List Exposure
  orders : List Exposure

/-- `symbols.entry(name).or_default()`, with a push to one of its lists. -/
def exposures : Grouping Item String Exposed where
  keyOf := Item.symbol
  key := Exposed.symbol
  fresh name := ⟨name, [], []⟩
  add x item :=
    if item.pending then { x with orders := x.orders ++ [item.exposure] }
    else { x with positions := x.positions ++ [item.exposure] }
  key_fresh _ := rfl
  key_add _ item := by cases item.pending <;> rfl

/-- What the first loop reads from a position. -/
def positionItem (p : Deal) : Result (Option Item) :=
  if p.volume = 0 then .ok none
  else if p.kind < 0 then reject "invalid position margin side"
  else .ok (some ⟨p.symbol, false, p.kind.toNat, p.volume, p.priceOpen.value, p.marginRate.value⟩)

/-- What the second loop reads from an order.  An order without margin is not converted. -/
def orderItem (c : Client) (terms : AccountTerms) (o : Order) : Result (Option Item) :=
  if o.volume = 0 then .ok none
  else do
    let s ← c.symbol o.symbol
    if o.kind < 2 ∨ 7 < o.kind then reject "invalid pending margin type"
    else
      let kind := o.kind.toNat
      if s.marginRates[kind]?.map F64.value = some (.finite 0) then return none
      else
        match c.conversionRate s.marginCurrency terms.currency (kind % 2 = 0) with
        | none => reject "pending margin currency conversion is unavailable"
        | some conversion =>
          return some ⟨o.symbol, true, kind, o.volume, o.price.value, .finite conversion⟩

/-- A round of either loop. -/
def addItem {α : Type} (read : α → Result (Option Item)) (m : Keyed exposures.key) (a : α) :
    Result (Keyed exposures.key) :=
  (read a).map fun item => item.toList.foldl exposures.push m

/-- The margin of a position, where nothing is hedged. -/
def nettingMargin (s : Symbol) (leverage : Int) (p : Exposure) : Result Number :=
  if !p.conversion.isFinite ∨ p.conversion ≤ .finite 0 then
    reject "position margin conversion is missing"
  else
    match orderMargin s (Leg.lotsOf p.volumeUnits) p.price p.kind leverage true with
    | some v => .ok (v * p.conversion)
    | none => unsupported

/-- A round of the loop over the symbols. -/
def addSymbol (c : Client) (terms : AccountTerms) (total : Number) (x : Exposed) :
    Result Number :=
  if terms.marginMode ≠ 1 then reject "unsupported account margin model"
  else do
    let s ← c.symbol x.symbol
    if terms.accountingMethod = 2 then
      let v ← hedgingMargin s c.state.account.leverage x.positions x.orders
      return total + v
    else if x.positions.length ≤ 1 ∧ x.orders = [] then
      x.positions.foldlM (fun total p => do
        let v ← nettingMargin s c.state.account.leverage p
        return total + v) total
    else reject "native netting order margin requires broker validation"

/-- The three loops of `Client::margin`. -/
def exactMargin (c : Client) (terms : AccountTerms) : Result Number := do
  let m ← c.state.positions.foldlM (addItem positionItem) (.empty exposures.key)
  let m ← c.state.orders.foldlM (addItem (c.orderItem terms)) m
  m.items.foldlM (c.addSymbol terms) (.finite 0)

/-- `(total * scale).round() / scale`, for a total that is not negative. -/
def roundTo (digits : Nat) (total : ℚ) : ℚ := round (total * 10 ^ digits) / 10 ^ digits

/-- `Client::margin`. -/
def margin (c : Client) : Result ℚ :=
  match c.state.terms with
  | none => reject "missing account margin terms"
  | some terms =>
    if ¬(0 ≤ terms.currencyDigits ∧ terms.currencyDigits ≤ 8) then
      reject "invalid account currency precision"
    else do
      match ← c.exactMargin terms with
      | .finite total =>
        if total < 0 then reject "invalid calculated account margin"
        else return roundTo terms.currencyDigits.toNat total
      | _ => reject "invalid calculated account margin"

/-! ## What is read -/

/-- The client with other positions and orders. -/
def relist (c : Client) (positions : List Deal) (orders : List Order) : Client :=
  { c with state := { c.state with positions, orders } }

/-- The client with the positions and the orders of one symbol. -/
def only (c : Client) (name : String) : Client :=
  c.relist (c.state.positions.filter fun p => p.symbol = name)
    (c.state.orders.filter fun o => o.symbol = name)

/-- What both loops read. -/
def items (c : Client) (terms : AccountTerms) : Result (List Item) := do
  let positions ← gather positionItem c.state.positions
  let orders ← gather (c.orderItem terms) c.state.orders
  return positions ++ orders

theorem items_eq_ok {c : Client} {terms : AccountTerms} {items : List Item} :
    c.items terms = .ok items ↔
      ∃ positions orders, gather positionItem c.state.positions = .ok positions ∧
        gather (c.orderItem terms) c.state.orders = .ok orders ∧ items = positions ++ orders := by
  rw [Client.items, except_bind_eq_ok]
  constructor
  · rintro ⟨positions, hpositions, hrest⟩
    obtain ⟨orders, horders, hitems⟩ := except_bind_eq_ok.mp hrest
    exact ⟨positions, orders, hpositions, horders, (Except.ok.inj hitems).symm⟩
  · rintro ⟨positions, orders, hpositions, horders, rfl⟩
    exact ⟨positions, hpositions, except_bind_eq_ok.mpr ⟨orders, horders, rfl⟩⟩

theorem foldlM_addItem {α : Type} (read : α → Result (Option Item)) (l : List α)
    (m : Keyed exposures.key) :
    l.foldlM (addItem read) m = (gather read l).map fun items => items.foldl exposures.push m :=
  foldlM_gather (fun _ _ => rfl) l m

/-- The loops over the account, and then the loop over the symbols. -/
theorem exactMargin_eq (c : Client) (terms : AccountTerms) :
    c.exactMargin terms = c.items terms >>= fun items =>
      (exposures.group items).items.foldlM (c.addSymbol terms) (.finite 0) := by
  rw [exactMargin, foldlM_addItem, Client.items]
  cases gather positionItem c.state.positions with
  | error e => rfl
  | ok positions =>
    show (c.state.orders.foldlM (addItem (c.orderItem terms)) (exposures.group positions) >>= _) = _
    rw [foldlM_addItem, except_ok_bind]
    cases gather (c.orderItem terms) c.state.orders with
    | error e => rfl
    | ok orders =>
      show _ = (exposures.group (positions ++ orders)).items.foldlM (c.addSymbol terms) (.finite 0)
      rw [Grouping.group_append]
      rfl

theorem exactMargin_eq_ok {c : Client} {terms : AccountTerms} {total : Number} :
    c.exactMargin terms = .ok total ↔ ∃ items, c.items terms = .ok items ∧
      (exposures.group items).items.foldlM (c.addSymbol terms) (.finite 0) = .ok total := by
  rw [exactMargin_eq, except_bind_eq_ok]

/-- The symbol of an exposure is the symbol of its position. -/
theorem positionItem_symbol {p : Deal} {item : Item} (h : positionItem p = .ok (some item)) :
    item.symbol = p.symbol := by
  unfold positionItem at h
  split at h
  · cases h
  · split at h
    · cases h
    · cases h
      rfl

theorem orderItem_symbol {c : Client} {terms : AccountTerms} {o : Order} {item : Item}
    (h : c.orderItem terms o = .ok (some item)) : item.symbol = o.symbol := by
  unfold orderItem at h
  split at h
  · cases h
  · obtain ⟨s, -, h⟩ := except_bind_eq_ok.mp h
    split at h
    · cases h
    · simp only at h
      split at h
      · cases h
      · split at h
        · cases h
        · cases h
          rfl

/-- What is read under one symbol. -/
theorem items_only {c : Client} {terms : AccountTerms} {items : List Item}
    (h : c.items terms = .ok items) (name : String) :
    (c.only name).items terms = .ok (items.filter fun item => item.symbol = name) := by
  obtain ⟨positions, orders, hpositions, horders, rfl⟩ := items_eq_ok.mp h
  refine items_eq_ok.mpr ⟨_, _,
    gather_filter_key (fun _ _ => positionItem_symbol) name hpositions,
    gather_filter_key (fun _ _ => orderItem_symbol) name horders, ?_⟩
  exact List.filter_append _ _

/-- The positions and the orders that count. -/
def Relisted (positions positions' : List Deal) (orders orders' : List Order) : Prop :=
  (positions.filter fun p => p.volume ≠ 0).Perm (positions'.filter fun p => p.volume ≠ 0) ∧
    (orders.filter fun o => o.volume ≠ 0).Perm (orders'.filter fun o => o.volume ≠ 0)

theorem items_relist {c : Client} {terms : AccountTerms} {positions positions' : List Deal}
    {orders orders' : List Order} (h : Relisted positions positions' orders orders')
    {items : List Item} (hitems : (c.relist positions orders).items terms = .ok items) :
    ∃ items', (c.relist positions' orders').items terms = .ok items' ∧ items.Perm items' := by
  have hposition : ∀ p : Deal, (decide (p.volume ≠ 0)) = false → positionItem p = .ok none := by
    intro p hp
    exact if_pos (by simpa using hp)
  have horder : ∀ o : Order, (decide (o.volume ≠ 0)) = false → c.orderItem terms o = .ok none := by
    intro o ho
    exact if_pos (by simpa using ho)
  obtain ⟨front, back, hfront, hback, rfl⟩ := items_eq_ok.mp hitems
  replace hfront : gather positionItem positions = .ok front := hfront
  replace hback : gather (c.orderItem terms) orders = .ok back := hback
  rw [← gather_filter hposition] at hfront
  rw [← gather_filter horder] at hback
  obtain ⟨front', hfront', hperm⟩ := gather_perm h.1 hfront
  obtain ⟨back', hback', hperm'⟩ := gather_perm h.2 hback
  rw [gather_filter hposition] at hfront'
  rw [gather_filter horder] at hback'
  exact ⟨_, items_eq_ok.mpr ⟨front', back', hfront', hback', rfl⟩, hperm.append hperm'⟩

/-! ## The margin of a symbol -/

/-- The same exposures in another order. -/
structure Similar (x y : Exposed) : Prop where
  symbol : x.symbol = y.symbol
  positions : x.positions.Perm y.positions
  orders : x.orders.Perm y.orders

theorem similar_collect (name : String) {front back : List Item} (h : front.Perm back) :
    Similar (exposures.collect name front) (exposures.collect name back) := by
  have hlists : ∀ (items : List Item) (x : Exposed), items.foldl exposures.add x =
      ⟨x.symbol, x.positions ++ (items.filter fun item => !item.pending).map Item.exposure,
        x.orders ++ (items.filter Item.pending).map Item.exposure⟩ := by
    intro items
    induction items with
    | nil =>
      intro x
      simp
    | cons item items ih =>
      intro x
      rw [List.foldl_cons, ih]
      cases hpending : item.pending with
      | true => simp [exposures, hpending]
      | false => simp [exposures, hpending]
  rw [Grouping.collect, Grouping.collect, hlists, hlists]
  exact ⟨rfl, ((h.filter _).map _).append_left _, ((h.filter _).map _).append_left _⟩

theorem addSymbol_similar {c : Client} {terms : AccountTerms} {x y : Exposed} (h : Similar x y)
    (total : Number) :
    (c.addSymbol terms total x).toOption = (c.addSymbol terms total y).toOption := by
  have hempty : x.orders = [] ↔ y.orders = [] := by
    constructor
    · intro hx
      exact (hx ▸ h.orders).nil_eq.symm
    · intro hy
      exact (hy ▸ h.orders).eq_nil
  rw [addSymbol, addSymbol]
  by_cases hmode : terms.marginMode = 1
  · rw [if_neg (not_not_intro hmode), if_neg (not_not_intro hmode), toOption_bind, toOption_bind,
      h.symbol]
    refine congrArg _ (funext fun s => ?_)
    by_cases hhedging : terms.accountingMethod = 2
    · simp only [if_pos hhedging]
      rw [toOption_bind, toOption_bind, hedgingMargin_alike s _ (.of_perm h.positions)
        (.of_perm h.orders)]
    · simp only [if_neg hhedging, h.positions.length_eq, hempty]
      split
      · rename_i hone
        have hsame : x.positions = y.positions := by
          have hperm := h.positions
          cases hy : y.positions with
          | nil => rw [hy] at hperm; exact hperm.eq_nil
          | cons e rest =>
            rw [hy] at hone hperm
            have hrest : rest = [] := List.eq_nil_of_length_eq_zero (by
              have := hone.1
              rw [List.length_cons] at this
              omega)
            rw [hrest] at hperm ⊢
            exact List.perm_singleton.mp hperm
        rw [hsame]
      · rfl
  · rw [if_pos hmode, if_pos hmode]

theorem foldlM_similar {c : Client} {terms : AccountTerms} {xs ys : List Exposed}
    (h : List.Forall₂ Similar xs ys) (total : Number) :
    (xs.foldlM (c.addSymbol terms) total).toOption =
      (ys.foldlM (c.addSymbol terms) total).toOption := by
  induction h generalizing total with
  | nil => rfl
  | cons hxy _ ih =>
    rw [List.foldlM_cons, List.foldlM_cons, toOption_bind, toOption_bind,
      addSymbol_similar hxy total]
    exact congrArg _ (funext ih)

/-- The account can be listed in any order. -/
theorem exactMargin_relist {c : Client} {terms : AccountTerms} {positions positions' : List Deal}
    {orders orders' : List Order} (h : Relisted positions positions' orders orders') :
    ((c.relist positions orders).exactMargin terms).toOption =
      ((c.relist positions' orders').exactMargin terms).toOption := by
  rw [exactMargin_eq, exactMargin_eq, toOption_bind, toOption_bind]
  have hback : Relisted positions' positions orders' orders := ⟨h.1.symm, h.2.symm⟩
  cases hitems : (c.relist positions orders).items terms with
  | ok items =>
    obtain ⟨items', hitems', hperm⟩ := items_relist h hitems
    rw [hitems']
    exact foldlM_similar (exposures.forall₂_group hperm fun name _ _ => similar_collect name) _
  | error e =>
    cases hitems' : (c.relist positions' orders').items terms with
    | error e' => rfl
    | ok items' =>
      obtain ⟨items, hok, -⟩ := items_relist hback hitems'
      cases hok.symm.trans hitems

theorem orderMargin_nonneg {s : Symbol} {lots price : Number} {kind : Nat} {leverage : Int}
    {maintenance : Bool} {v : Number}
    (h : orderMargin s lots price kind leverage maintenance = some v) :
    ∃ q : ℚ, 0 ≤ q ∧ v = .finite q := by
  have hnumber : ∀ x, nonnegative x = some v → ∃ q : ℚ, 0 ≤ q ∧ v = .finite q := by
    intro x hx
    unfold nonnegative at hx
    split at hx
    · rename_i hpositive
      obtain ⟨q, hq⟩ := Extended.isFinite_iff.mp hpositive.1
      rw [← Option.some.inj hx]
      rw [hq] at hpositive ⊢
      exact ⟨q, Extended.finite_le.mp hpositive.2, rfl⟩
    · cases hx
  unfold orderMargin at h
  split at h
  · cases h
  · obtain ⟨rate, -, h⟩ := Option.bind_eq_some_iff.mp h
    split at h
    · cases h
    · obtain ⟨unconverted, -, h⟩ := Option.bind_eq_some_iff.mp h
      exact hnumber _ h

theorem nettingMargin_nonneg {s : Symbol} {leverage : Int} {p : Exposure} {v : Number}
    (h : nettingMargin s leverage p = .ok v) : ∃ q : ℚ, 0 ≤ q ∧ v = .finite q := by
  unfold nettingMargin at h
  split at h
  · cases h
  · rename_i hconversion
    rw [not_or] at hconversion
    obtain ⟨a, ha⟩ := Extended.isFinite_iff.mp (by simpa using hconversion.1)
    rw [ha, Extended.finite_le, not_le] at hconversion
    split at h
    · rename_i w hw
      obtain ⟨b, hb, rfl⟩ := orderMargin_nonneg hw
      rw [← Except.ok.inj h, ha, Extended.finite_mul]
      exact ⟨b * a, mul_nonneg hb hconversion.2.le, rfl⟩
    · cases h

/-- A round adds the margin of the symbol, whatever the total is. -/
theorem addSymbol_share {c : Client} {terms : AccountTerms} {x : Exposed} {t : ℚ} {r : Number}
    (h : c.addSymbol terms (.finite t) x = .ok r) :
    ∃ q : ℚ, 0 ≤ q ∧ ∀ u : ℚ, c.addSymbol terms (.finite u) x = .ok (.finite (u + q)) := by
  rw [addSymbol] at h
  split at h
  · cases h
  · rename_i hmode
    obtain ⟨s, hs, h⟩ := except_bind_eq_ok.mp h
    simp only [addSymbol, if_neg hmode, hs, except_ok_bind]
    split at h
    · rename_i hhedging
      obtain ⟨v, hv, -⟩ := except_bind_eq_ok.mp h
      obtain ⟨q, hq, rfl⟩ := hedgingMargin_nonneg hv
      refine ⟨q, hq, fun u => ?_⟩
      rw [if_pos hhedging, hv]
      rfl
    · rename_i hhedging
      simp only [if_neg hhedging]
      split at h
      · rename_i hone
        simp only [if_pos hone]
        cases hpositions : x.positions with
        | nil => exact ⟨0, le_rfl, fun u => by rw [add_zero]; rfl⟩
        | cons p rest =>
          have hrest : rest = [] := List.eq_nil_of_length_eq_zero (by
            have hlength := hone.1
            rw [hpositions, List.length_cons] at hlength
            omega)
          rw [hpositions, hrest, List.foldlM_cons] at h
          rw [hrest]
          obtain ⟨w, hw, -⟩ := except_bind_eq_ok.mp h
          obtain ⟨v, hv, -⟩ := except_bind_eq_ok.mp hw
          obtain ⟨q, hq, rfl⟩ := nettingMargin_nonneg hv
          refine ⟨q, hq, fun u => ?_⟩
          rw [List.foldlM_cons, hv]
          rfl
      · cases h

/-- The margin of a symbol, where it has one. -/
def share (c : Client) (terms : AccountTerms) (x : Exposed) : ℚ :=
  match c.addSymbol terms (.finite 0) x with
  | .ok (.finite q) => q
  | _ => 0

theorem addSymbol_eq {c : Client} {terms : AccountTerms} {x : Exposed} {t : ℚ} {r : Number}
    (h : c.addSymbol terms (.finite t) x = .ok r) :
    0 ≤ c.share terms x ∧
      ∀ u, c.addSymbol terms (.finite u) x = .ok (.finite (u + c.share terms x)) := by
  obtain ⟨q, hq, hadd⟩ := addSymbol_share h
  have hshare : c.share terms x = q := by
    rw [share, hadd, zero_add]
  rw [hshare]
  exact ⟨hq, hadd⟩

theorem foldlM_share {c : Client} {terms : AccountTerms} {xs : List Exposed} {t : ℚ} {r : Number}
    (h : xs.foldlM (c.addSymbol terms) (.finite t) = .ok r) :
    (∀ x ∈ xs, 0 ≤ c.share terms x ∧
      ∀ u, c.addSymbol terms (.finite u) x = .ok (.finite (u + c.share terms x))) ∧
      r = .finite (t + (xs.map (c.share terms)).sum) := by
  induction xs generalizing t with
  | nil =>
    constructor
    · intro x hx
      cases hx
    · rw [List.map_nil, List.sum_nil, add_zero]
      exact (Except.ok.inj h).symm
  | cons x xs ih =>
    rw [List.foldlM_cons] at h
    obtain ⟨next, hnext, hrest⟩ := except_bind_eq_ok.mp h
    have hx := addSymbol_eq hnext
    rw [hx.2 t] at hnext
    rw [← Except.ok.inj hnext] at hrest
    obtain ⟨hall, hr⟩ := ih hrest
    refine ⟨List.forall_mem_cons.mpr ⟨hx, hall⟩, ?_⟩
    rw [hr, List.map_cons, List.sum_cons, add_assoc]

/-! ## Sums over symbols -/

/-- The symbols of the positions and of the orders. -/
def names (c : Client) : Finset String :=
  (c.state.positions.map Deal.symbol ++ c.state.orders.map Order.symbol).toFinset

theorem symbol_mem_names {c : Client} {terms : AccountTerms} {items : List Item}
    (h : c.items terms = .ok items) {item : Item} (hitem : item ∈ items) :
    item.symbol ∈ c.names := by
  obtain ⟨positions, orders, hpositions, horders, rfl⟩ := items_eq_ok.mp h
  rw [names, List.mem_toFinset]
  rcases List.mem_append.mp hitem with hitem | hitem
  · obtain ⟨p, hp, hread⟩ := mem_gather hpositions hitem
    rw [positionItem_symbol hread]
    exact List.mem_append_left _ (List.mem_map_of_mem hp)
  · obtain ⟨o, ho, hread⟩ := mem_gather horders hitem
    rw [orderItem_symbol hread]
    exact List.mem_append_right _ (List.mem_map_of_mem ho)

/-- The margin that a symbol of the map has. -/
def shareOf (c : Client) (terms : AccountTerms) (m : Keyed exposures.key) (name : String) : ℚ :=
  ((m.get? name).map (c.share terms)).getD 0

/-- The shares of the groups, as a sum over all symbols of the account. -/
theorem sum_shareOf {c : Client} {terms : AccountTerms} {items : List Item}
    (h : c.items terms = .ok items) :
    ((exposures.group items).items.map (c.share terms)).sum =
      ∑ name ∈ c.names, c.shareOf terms (exposures.group items) name := by
  have hnodup : ((exposures.group items).items.map Exposed.symbol).Nodup :=
    List.pairwise_map.mpr ((exposures.group items).sorted.imp ne_of_lt)
  have hsubset : ((exposures.group items).items.map Exposed.symbol).toFinset ⊆ c.names := by
    intro name hname
    rw [List.mem_toFinset, List.mem_map] at hname
    obtain ⟨x, hx, rfl⟩ := hname
    obtain ⟨name, hsome, rfl⟩ := exposures.mem_group.mp hx
    obtain ⟨item, hitem⟩ := List.exists_mem_of_ne_nil _ hsome
    obtain ⟨hmem, hkey⟩ := List.mem_filter.mp hitem
    have hsymbol : item.symbol = name := of_decide_eq_true hkey
    show exposures.key _ ∈ c.names
    rw [exposures.key_collect, ← hsymbol]
    exact symbol_mem_names h hmem
  have houtside : ∀ name ∈ c.names,
      name ∉ ((exposures.group items).items.map Exposed.symbol).toFinset →
        c.shareOf terms (exposures.group items) name = 0 := by
    intro name _ hname
    rw [shareOf]
    cases hget : (exposures.group items).get? name with
    | none => rfl
    | some x =>
      obtain ⟨hx, hkey⟩ := Keyed.get?_eq_some.mp hget
      exact absurd (List.mem_toFinset.mpr (List.mem_map.mpr ⟨x, hx, hkey⟩)) hname
  rw [← Finset.sum_subset hsubset houtside, List.sum_toFinset _ hnodup, List.map_map]
  refine congrArg List.sum (List.map_congr_left fun x hx => ?_)
  have hget : (exposures.group items).get? x.symbol = some x := Keyed.mem_items.mp hx
  rw [Function.comp_apply, shareOf, hget]
  rfl

/-- The margin of an account is the sum of the margins of its symbols. -/
theorem exactMargin_sum {c : Client} {terms : AccountTerms} {total : Number}
    (h : c.exactMargin terms = .ok total) :
    ∃ own : String → ℚ,
      (∀ name, 0 ≤ own name ∧ (c.only name).exactMargin terms = .ok (.finite (own name))) ∧
      total = .finite (∑ name ∈ c.names, own name) := by
  obtain ⟨items, hitems, hfold⟩ := exactMargin_eq_ok.mp h
  obtain ⟨hshares, htotal⟩ := foldlM_share hfold
  refine ⟨c.shareOf terms (exposures.group items), ?_, ?_⟩
  · intro name
    have honly : (c.only name).exactMargin terms =
        ((exposures.group items).get? name).toList.foldlM (c.addSymbol terms) (.finite 0) := by
      rw [exactMargin_eq, items_only hitems name, except_ok_bind]
      exact congrArg (fun xs => List.foldlM (c.addSymbol terms) (.finite 0) xs)
        (exposures.group_filter items name)
    rw [honly, shareOf]
    cases hget : (exposures.group items).get? name with
    | none => exact ⟨le_rfl, rfl⟩
    | some x =>
      obtain ⟨hnonneg, hadd⟩ := hshares x (Keyed.get?_eq_some.mp hget).1
      refine ⟨hnonneg, ?_⟩
      show c.addSymbol terms (.finite 0) x >>= pure = _
      rw [hadd, zero_add]
      rfl
  · rw [htotal, zero_add, sum_shareOf hitems]

/-! ## The rounded margin -/

/-- `m` is `total` with this many digits, and halves of the last one go up. -/
def Rounds (digits : Nat) (total m : ℚ) : Prop :=
  ∃ units : ℤ, m = units / 10 ^ digits ∧ units - 1 / 2 ≤ total * 10 ^ digits ∧
    total * 10 ^ digits < units + 1 / 2

theorem rounds_roundTo (digits : Nat) (total : ℚ) :
    Rounds digits total (roundTo digits total) := by
  refine ⟨round (total * 10 ^ digits), rfl, ?_, ?_⟩
  · have := round_le_add_half (total * 10 ^ digits)
    linarith
  · have := sub_half_lt_round (total * 10 ^ digits)
    linarith

/-- A total that is not negative stays so. -/
theorem Rounds.nonneg {digits : Nat} {total m : ℚ} (h : Rounds digits total m)
    (htotal : 0 ≤ total) : 0 ≤ m := by
  obtain ⟨units, rfl, -, hlt⟩ := h
  have hscaled : 0 ≤ total * 10 ^ digits := by positivity
  have hunits : (-1 : ℚ) < units := by linarith
  have hcast : -1 < units := by exact_mod_cast hunits
  have hnonneg : (0 : ℚ) ≤ units := by exact_mod_cast Int.add_one_le_iff.mpr hcast
  positivity

theorem Rounds.near {digits : Nat} {total m : ℚ} (h : Rounds digits total m) :
    |m - total| ≤ 1 / 2 / 10 ^ digits := by
  obtain ⟨units, rfl, hle, hlt⟩ := h
  have hscale : (0 : ℚ) < 10 ^ digits := by positivity
  have hquotient : (units : ℚ) / 10 ^ digits - total =
      (units - total * 10 ^ digits) / 10 ^ digits := by
    field_simp
  rw [hquotient, abs_div, abs_of_pos hscale]
  refine div_le_div_of_nonneg_right (abs_le.mpr ⟨?_, ?_⟩) hscale.le
  · linarith
  · linarith

theorem margin_eq_ok {c : Client} {m : ℚ} (h : c.margin = .ok m) :
    ∃ terms total, c.state.terms = some terms ∧ c.exactMargin terms = .ok (.finite total) ∧
      0 ≤ total ∧ m = roundTo terms.currencyDigits.toNat total := by
  unfold margin at h
  split at h
  · cases h
  · rename_i terms hterms
    split at h
    · cases h
    · obtain ⟨total, htotal, h⟩ := except_bind_eq_ok.mp h
      split at h
      · rename_i q
        split at h
        · cases h
        · rename_i hq
          exact ⟨terms, q, hterms, htotal, not_lt.mp hq, (Except.ok.inj h).symm⟩
      · cases h

theorem margin_relist {c : Client} {positions positions' : List Deal} {orders orders' : List Order}
    (h : Relisted positions positions' orders orders') :
    (c.relist positions orders).margin.toOption =
      (c.relist positions' orders').margin.toOption := by
  have hterms : ∀ positions orders, (c.relist positions orders).state.terms = c.state.terms :=
    fun _ _ => rfl
  rw [margin, margin, hterms, hterms]
  cases c.state.terms with
  | none => rfl
  | some terms =>
    simp only
    split
    · rfl
    · rw [toOption_bind, toOption_bind, exactMargin_relist h]

/-- The margin of an account does not depend on the order in which its positions and orders are
listed, nor on those without volume.  It is a sum over the symbols, to which each symbol adds the
margin that it would have alone, rounded to the digits of the currency, and so it is not negative
and within half a unit of the last digit. -/
theorem margin_by_symbol (c : Client) :
    (∀ positions positions' orders orders', Relisted positions positions' orders orders' →
      (c.relist positions orders).margin.toOption = (c.relist positions' orders').margin.toOption) ∧
    ∀ m, c.margin = .ok m → ∃ terms, c.state.terms = some terms ∧ ∃ own : String → ℚ,
      (∀ name, 0 ≤ own name ∧ (c.only name).exactMargin terms = .ok (.finite (own name))) ∧
      Rounds terms.currencyDigits.toNat (∑ name ∈ c.names, own name) m ∧
      0 ≤ m ∧ |m - ∑ name ∈ c.names, own name| ≤ 1 / 2 / 10 ^ terms.currencyDigits.toNat := by
  constructor
  · exact fun _ _ _ _ h => margin_relist h
  · intro m hm
    obtain ⟨terms, total, hterms, hexact, hnonneg, rfl⟩ := margin_eq_ok hm
    obtain ⟨own, hown, htotal⟩ := exactMargin_sum hexact
    have hrounds := rounds_roundTo terms.currencyDigits.toNat total
    have hpositive := hrounds.nonneg hnonneg
    rw [Extended.finite.inj htotal] at hrounds hpositive ⊢
    exact ⟨terms, hterms, own, hown, hrounds, hpositive, hrounds.near⟩

def samplePosition (kind : Int) : Deal where
  ticket := 1
  order := 1
  position := 1
  symbol := "EURUSD"
  kind := kind
  entry := 0
  time := 0
  timeMs := 0
  priceOpen := ⟨0x3ff0000000000000⟩
  price := .zero
  sl := .zero
  tp := .zero
  volume := 10 ^ 8
  profit := .zero
  commission := .zero
  swap := .zero
  magic := 0
  comment := ""
  profitRate := .zero
  marginRate := ⟨0x3ff0000000000000⟩
  contractSize := .zero
  moneyDigits := 2

/-- An order to buy a lot of GBPUSD at 1. -/
def sampleOrder : Order where
  ticket := 2
  symbol := "GBPUSD"
  kind := 2
  state := 0
  time := 0
  historyStamp := 0
  timeDone := 0
  expiration := 0
  price := ⟨0x3ff0000000000000⟩
  stopLimit := .zero
  sl := .zero
  tp := .zero
  volume := 10 ^ 8
  volumeInitial := 10 ^ 8
  magic := 0
  comment := ""

/-- A hedging account in USD with a leverage of 7, with a lot of EURUSD bought and one sold. -/
def sampleAccount : Client :=
  { sampleQuoted with
    state := { sampleQuoted.state with
      account := { sampleQuoted.state.account with leverage := 7 }
      terms := some ⟨"USD", 2, 2, 1⟩
      positions := [samplePosition 0, samplePosition 1]
      orders := [sampleOrder] } }

theorem margin_by_symbol_sample :
    (sampleAccount.relist [samplePosition 1, samplePosition 0] [sampleOrder]).margin.toOption =
        some 438.86 ∧
      ∃ terms, sampleAccount.state.terms = some terms ∧ ∃ own : String → ℚ,
        (∀ name, 0 ≤ own name ∧
          (sampleAccount.only name).exactMargin terms = .ok (.finite (own name))) ∧
        Rounds terms.currencyDigits.toNat (∑ name ∈ sampleAccount.names, own name) 438.86 ∧
        (0 : ℚ) ≤ 438.86 ∧ |438.86 - ∑ name ∈ sampleAccount.names, own name| ≤
          1 / 2 / 10 ^ terms.currencyDigits.toNat := by
  have hmargin : sampleAccount.margin = .ok 438.86 := by decide +kernel
  obtain ⟨hlisting, hsum⟩ := margin_by_symbol sampleAccount
  refine ⟨?_, hsum 438.86 hmargin⟩
  have hswap : Relisted [samplePosition 0, samplePosition 1] [samplePosition 1, samplePosition 0]
      [sampleOrder] [sampleOrder] := ⟨(List.Perm.swap _ _ _).filter _, .refl _⟩
  rw [← hlisting _ _ _ _ hswap]
  exact congrArg Except.toOption hmargin

end Mt5Open.Native.Client

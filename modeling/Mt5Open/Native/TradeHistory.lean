import Mathlib.Data.List.Sort
import Mt5Open.Lib.Keyed
import Mt5Open.Native.Formats

/-!
# Order and deal history

A history is a list of buckets.  A bucket removes tickets and then brings records,
and a record replaces the one of its ticket.  The broker sends the removals of a
bucket with action 0, and two other actions have no body at all.

`decodeTradeHistory_fold` says that the decoder accepts exactly these bodies, and
that what it gives are the records that remain after the buckets, in the order of
their tickets.
-/

namespace Mt5Open.Native

open Lib
open SyncGrammar (Format word)

inductive TradeHistory where
  | orders (orders : List Order)
  | deals (deals : List Deal)
  deriving DecidableEq, Repr

namespace TradeHistory

/-- The maps of the loop in `decode_trade_history`. -/
structure Collected where
  orders : Keyed Order.ticket
  deals : Keyed Deal.ticket

namespace Collected

def remove (s : Collected) (ticket : Nat) : Collected where
  orders := s.orders.remove ticket
  deals := s.deals.remove ticket

def putOrder (s : Collected) (order : Order) : Collected :=
  { s with orders := s.orders.insert order }

def putDeal (s : Collected) (deal : Deal) : Collected := { s with deals := s.deals.insert deal }

/-- The answer of `decode_trade_history`. -/
def history (subtype : UInt8) (s : Collected) : TradeHistory :=
  if subtype = 32 then .orders s.orders.items else .deals s.deals.items

end Collected

/-- One round of the loop over the removed tickets. -/
def removal (s : Collected) : Reader Collected := do
  let ticket ← Reader.u64
  return s.remove ticket

/-- One round of the loop over the records. -/
def historyRecord (subtype : UInt8) (s : Collected) : Reader Collected := do
  if subtype = 32 then
    let order ← Decoder.ofResult (Order.parse (← Reader.take 636))
    return s.putOrder order
  else
    let deal ← Decoder.ofResult (Deal.parse (← Reader.take 672))
    return s.putDeal deal

/-- The loop over the records of a bucket. -/
def historyRecords (subtype : UInt8) (s : Collected) : Reader Collected := do
  let n ← Reader.count (if subtype = 32 then 636 else 672)
  Decoder.iterate (historyRecord subtype) n s

/-- One round of the loop over the buckets. -/
def historyBucket (subtype : UInt8) (s : Collected) : Reader Collected := do
  let _ ← Reader.u64
  let action ← Reader.i32
  if action = 1 ∨ subtype = 32 ∧ action = 4 then return s
  else if action = 0 then
    let n ← Reader.count 8
    let s ← Decoder.iterate removal n s
    let s ← historyRecords subtype s
    let _ ← Reader.take 16
    return s
  else
    let _ ← Reader.i32
    historyRecords subtype s

/-- The buckets behind the subtype. -/
def historyBuckets (subtype : UInt8) : Reader Collected := do
  let _watermark ← Reader.i32
  let n ← Reader.count 12
  Decoder.iterate (historyBucket subtype) n { orders := .empty _, deals := .empty _ }

/-- The body of `decode_trade_history`. -/
def tradeHistory : Reader TradeHistory := do
  let subtype ← Reader.byte
  if subtype ≠ 32 ∧ subtype ≠ 33 then Reader.fail "unknown trade history subtype"
  else
    let s ← historyBuckets subtype
    Reader.ended "trailing trade history bytes" (s.history subtype)

/-! ## What a history means -/

/-- A bucket: the tickets that it removes, and the records that it brings. -/
structure Bucket (α : Type) where
  removed : List Nat
  records : List α
  deriving DecidableEq, Repr

section Meaning

variable {α : Type} (ticket : α → Nat)

/-- The records by their tickets, after a bucket. -/
def Bucket.apply (held : Nat → Option α) (b : Bucket α) : Nat → Option α :=
  let kept := b.removed.foldl (fun held t => Function.update held t none) held
  b.records.foldl (fun held r => Function.update held (ticket r) (some r)) kept

/-- The records by their tickets, after all buckets. -/
def remaining (buckets : List (Bucket α)) : Nat → Option α :=
  buckets.foldl (Bucket.apply ticket) fun _ => none

/-- The records that remain, in the strict order of their tickets. -/
structure Remain (buckets : List (Bucket α)) (records : List α) : Prop where
  sorted : records.Pairwise fun a b => ticket a < ticket b
  mem_iff : ∀ r, r ∈ records ↔ remaining ticket buckets (ticket r) = some r

end Meaning

section Body

variable {α : Type} (subtype : UInt8) (record : Format α)

/-- A bucket, in one of its four shapes. -/
def bucket : Format (Bucket α) := do
  let _ ← longWord
  let action ← word
  if action = 1 ∨ subtype = 32 ∧ action = 4 then return ⟨[], []⟩
  else if action = 0 then
    let removed ← counted longWord
    let records ← counted record
    let _ ← Grammar.block 16
    return ⟨removed, records⟩
  else
    let _ ← word
    let records ← counted record
    return ⟨[], records⟩

/-- A watermark and the buckets behind their count. -/
def buckets : Format (List (Bucket α)) := do
  let _ ← word
  counted (bucket subtype record)

end Body

/-- An order of a history and a deal of a history. -/
def order : Format Order := parsed 636 Order.parse

def deal : Format Deal := parsed 672 Deal.parse

/-- The bodies of both subtypes, with what remains after their buckets. -/
inductive Spells : Bytes → TradeHistory → Prop
  | orders {body : Bytes} {bs : List (Bucket Order)} {records : List Order}
      (hbody : buckets 32 order body bs) (hremain : Remain Order.ticket bs records) :
      Spells (32 :: body) (.orders records)
  | deals {body : Bytes} {bs : List (Bucket Deal)} {records : List Deal}
      (hbody : buckets 33 deal body bs) (hremain : Remain Deal.ticket bs records) :
      Spells (33 :: body) (.deals records)

/-! ## The decoder reads the buckets -/

section Readers

open Decoder Reader

variable {α : Type} {subtype : UInt8} {record : Format α} {put : Collected → α → Collected}

/-- What the loop makes of a bucket. -/
def process (put : Collected → α → Collected) (s : Collected) (b : Bucket α) : Collected :=
  b.records.foldl put (b.removed.foldl Collected.remove s)

/-- What the loop makes of all buckets. -/
def collect (put : Collected → α → Collected) (bs : List (Bucket α)) : Collected :=
  bs.foldl (process put) { orders := .empty _, deals := .empty _ }

theorem parses_removal (s : Collected) :
    Parses (removal s) (longWord >>= fun ticket => pure (s.remove ticket)) :=
  parses_u64.bind fun _ => .pure _

theorem atLeast_longWord : longWord.AtLeast 8 := fun _ _ h => Nat.le_of_eq h.1.symm

theorem atLeast_word : word.AtLeast 4 := fun _ _ h => Nat.le_of_eq h.1.symm

/-- The two kinds of history: the record of a kind, and where it is put. -/
structure HistoryKind (subtype : UInt8) (record : Format α) (put : Collected → α → Collected) :
    Prop where
  reads : ∀ s, Parses (historyRecord subtype s) (record >>= fun a => pure (put s a))
  atLeast : record.AtLeast (if subtype = 32 then 636 else 672)

theorem parses_put (size : Nat) (parse : Bytes → Result α) (s : Collected) :
    Parses (do
      let a ← ofResult (parse (← take size))
      return put s a) (parsed size parse >>= fun a => pure (put s a)) := by
  rw [parsed, Grammar.bind_assoc]
  exact (parses_take size).bind fun bytes => (Parses.ofResult (parse bytes)).bind fun a => .pure _

theorem kind_order : HistoryKind 32 order Collected.putOrder where
  reads s := by
    rw [historyRecord, if_pos rfl]
    exact parses_put 636 Order.parse s
  atLeast := atLeast_parsed 636 _

theorem kind_deal : HistoryKind 33 deal Collected.putDeal where
  reads s := by
    rw [historyRecord, if_neg (by decide)]
    exact parses_put 672 Deal.parse s
  atLeast := atLeast_parsed 672 _

theorem parses_historyRecords (hkind : HistoryKind subtype record put) (s : Collected) :
    Parses (historyRecords subtype s) (counted record >>= fun rs => pure (rs.foldl put s)) :=
  parses_counted_iterate hkind.reads hkind.atLeast (by split <;> decide) s

theorem parses_historyBucket (hkind : HistoryKind subtype record put) (s : Collected) :
    Parses (historyBucket subtype s)
      (bucket subtype record >>= fun b => pure (process put s b)) := by
  have hsame : (bucket subtype record >>= fun b => pure (process put s b)) =
      longWord >>= fun _ => word >>= fun action =>
        if action = 1 ∨ subtype = 32 ∧ action = 4 then pure s
        else if action = 0 then
          (counted longWord >>= fun ts => pure (ts.foldl Collected.remove s)) >>= fun t =>
            (counted record >>= fun rs => pure (rs.foldl put t)) >>= fun t =>
              Grammar.block 16 >>= fun _ => pure t
        else word >>= fun _ => counted record >>= fun rs => pure (rs.foldl put s) := by
    simp only [bucket, Grammar.bind_assoc, Grammar.ite_bind, Grammar.pure_bind]
    rfl
  rw [hsame]
  refine parses_u64.bind fun _ => parses_i32.bind fun action => ?_
  by_cases hempty : action = 1 ∨ subtype = 32 ∧ action = 4
  · rw [if_pos hempty, if_pos hempty]
    exact .pure s
  rw [if_neg hempty, if_neg hempty]
  by_cases hzero : action = 0
  · rw [if_pos hzero, if_pos hzero]
    rw [← bind_assoc]
    refine (parses_counted_iterate parses_removal atLeast_longWord (by decide) s).bind fun t => ?_
    refine (parses_historyRecords hkind t).bind fun u => ?_
    exact (parses_take 16).bind fun _ => .pure u
  · rw [if_neg hzero, if_neg hzero]
    exact parses_i32.bind fun _ => parses_historyRecords hkind s

theorem atLeast_bucket : (bucket subtype record).AtLeast 12 :=
  atLeast_longWord.bind fun _ => atLeast_word.bind_left

theorem parses_historyBuckets (hkind : HistoryKind subtype record put) :
    Parses (historyBuckets subtype)
      (buckets subtype record >>= fun bs => pure (collect put bs)) := by
  rw [buckets, Grammar.bind_assoc]
  exact parses_i32.bind fun _ =>
    parses_counted_iterate (parses_historyBucket hkind) atLeast_bucket (by decide) _

/-- The decoder on a subtype that it knows. -/
theorem decode_eq_ok (hkind : HistoryKind subtype record put)
    (hsubtype : subtype = 32 ∨ subtype = 33)
    {body : Bytes} {h : TradeHistory} :
    tradeHistory.run' (subtype :: body) = .ok h ↔
      ∃ bs, buckets subtype record body bs ∧ h = (collect put bs).history subtype := by
  have hbody : tradeHistory.run' (subtype :: body) = (do
      let s ← historyBuckets subtype
      ended "trailing trade history bytes" (s.history subtype)).run' body := by
    have hknown : ¬(subtype ≠ 32 ∧ subtype ≠ 33) := by
      rcases hsubtype with rfl | rfl <;> decide
    unfold StateT.run' tradeHistory
    rw [bind_of_ok (byte_cons subtype body), if_neg hknown]
  rw [hbody, run_ended (parses_historyBuckets hkind)]
  constructor
  · rintro ⟨s, ⟨front, back, bs, rfl, hbs, rfl, rfl⟩, rfl⟩
    rw [List.append_nil]
    exact ⟨bs, hbs, rfl⟩
  · rintro ⟨bs, hbs, rfl⟩
    exact ⟨_, ⟨body, [], bs, (List.append_nil body).symm, hbs, rfl, rfl⟩, rfl⟩

end Readers

/-! ## What remains -/

section Remaining

variable {α : Type} {ticket : α → Nat} {put : Collected → α → Collected}
  {part : Collected → Keyed ticket}

/-- A part of the maps that follows the records of its kind and all removals. -/
structure Follows (put : Collected → α → Collected) (part : Collected → Keyed ticket) : Prop where
  put_part : ∀ s a, part (put s a) = (part s).insert a
  remove_part : ∀ s t, part (s.remove t) = (part s).remove t

theorem follows_orders : Follows Collected.putOrder Collected.orders :=
  ⟨fun _ _ => rfl, fun _ _ => rfl⟩

theorem follows_deals : Follows Collected.putDeal Collected.deals :=
  ⟨fun _ _ => rfl, fun _ _ => rfl⟩

theorem get?_removed (h : Follows put part) (tickets : List Nat) (s : Collected) :
    (part (tickets.foldl Collected.remove s)).get? =
      tickets.foldl (fun held t => Function.update held t none) (part s).get? := by
  induction tickets generalizing s with
  | nil => rfl
  | cons t tickets ih =>
    rw [List.foldl_cons, List.foldl_cons, ih, h.remove_part, Keyed.get?_remove]

theorem get?_put (h : Follows put part) (records : List α) (s : Collected) :
    (part (records.foldl put s)).get? =
      records.foldl (fun held r => Function.update held (ticket r) (some r)) (part s).get? := by
  induction records generalizing s with
  | nil => rfl
  | cons r records ih =>
    rw [List.foldl_cons, List.foldl_cons, ih, h.put_part, Keyed.get?_insert]

theorem get?_process (h : Follows put part) (s : Collected) (b : Bucket α) :
    (part (process put s b)).get? = b.apply ticket (part s).get? := by
  rw [process, get?_put h, get?_removed h]
  rfl

theorem get?_foldl (h : Follows put part) (bs : List (Bucket α)) (s : Collected) :
    (part (bs.foldl (process put) s)).get? = bs.foldl (Bucket.apply ticket) (part s).get? := by
  induction bs generalizing s with
  | nil => rfl
  | cons b bs ih => rw [List.foldl_cons, List.foldl_cons, ih, get?_process h]

theorem remain_items (h : Follows put part) {bs : List (Bucket α)}
    (hempty : part { orders := .empty _, deals := .empty _ } = .empty ticket) :
    Remain ticket bs (part (collect put bs)).items where
  sorted := (part (collect put bs)).sorted
  mem_iff r := by
    rw [Keyed.mem_items, collect, get?_foldl h, hempty]
    rfl

/-- The records that remain are determined by the buckets. -/
theorem Remain.unique {bs : List (Bucket α)} {records others : List α}
    (h : Remain ticket bs records) (h' : Remain ticket bs others) : records = others := by
  have hirrefl : Std.Irrefl fun a b => ticket a < ticket b := ⟨fun a => Nat.lt_irrefl _⟩
  have hantisymm : Std.Antisymm fun a b => ticket a < ticket b :=
    ⟨fun a b hab hba => absurd hab (Nat.lt_asymm hba)⟩
  refine List.Pairwise.eq_of_mem_iff h.sorted h'.sorted fun r => ?_
  rw [h.mem_iff, h'.mem_iff]

end Remaining

end TradeHistory

open TradeHistory

/-- `decode_trade_history`. -/
def decodeTradeHistory (bytes : Bytes) : Result TradeHistory := tradeHistory.run' bytes

theorem decodeTradeHistory_eq_ok {bytes : Bytes} {h : TradeHistory} :
    decodeTradeHistory bytes = .ok h ↔ Spells bytes h := by
  unfold decodeTradeHistory
  cases bytes with
  | nil => exact ⟨nofun, nofun⟩
  | cons subtype body =>
    by_cases horders : subtype = 32
    · subst horders
      rw [decode_eq_ok kind_order (.inl rfl)]
      constructor
      · rintro ⟨bs, hbs, rfl⟩
        exact .orders hbs (remain_items follows_orders rfl)
      · rintro ⟨hbody, hremain⟩
        refine ⟨_, hbody, ?_⟩
        rw [hremain.unique (remain_items follows_orders rfl)]
        rfl
    by_cases hdeals : subtype = 33
    · subst hdeals
      rw [decode_eq_ok kind_deal (.inr rfl)]
      constructor
      · rintro ⟨bs, hbs, rfl⟩
        exact .deals hbs (remain_items follows_deals rfl)
      · rintro (_ | ⟨hbody, hremain⟩)
        refine ⟨_, hbody, ?_⟩
        rw [hremain.unique (remain_items follows_deals rfl)]
        rfl
    · constructor
      · intro hrun
        unfold StateT.run' tradeHistory at hrun
        rw [Decoder.bind_of_ok (Reader.byte_cons subtype body), if_pos ⟨horders, hdeals⟩] at hrun
        cases hrun
      · rintro (_ | _)
        · exact absurd rfl horders
        · exact absurd rfl hdeals

/-- A subtype with buckets of its kind behind it. -/
def WellFormed (bytes : Bytes) : Prop :=
  (∃ body bs, bytes = 32 :: body ∧ buckets 32 order body bs) ∨
    ∃ body bs, bytes = 33 :: body ∧ buckets 33 deal body bs

theorem decodeTradeHistory_ok_iff {bytes : Bytes} :
    (∃ h, decodeTradeHistory bytes = .ok h) ↔ WellFormed bytes := by
  constructor
  · rintro ⟨h, hok⟩
    rcases decodeTradeHistory_eq_ok.mp hok with ⟨hbody, -⟩ | ⟨hbody, -⟩
    · exact .inl ⟨_, _, rfl, hbody⟩
    · exact .inr ⟨_, _, rfl, hbody⟩
  · rintro (⟨body, bs, rfl, hbody⟩ | ⟨body, bs, rfl, hbody⟩)
    · exact ⟨_, decodeTradeHistory_eq_ok.mpr (.orders hbody (remain_items follows_orders rfl))⟩
    · exact ⟨_, decodeTradeHistory_eq_ok.mpr (.deals hbody (remain_items follows_deals rfl))⟩

theorem prefixFree_buckets {α : Type} {subtype : UInt8} {record : Format α}
    {put : Collected → α → Collected} (hkind : HistoryKind subtype record put) :
    PrefixFree fun body => ∃ bs, buckets subtype record body bs := by
  rintro word more ⟨bs, h⟩ ⟨cs, h'⟩
  refine (parses_historyBuckets hkind).prefixFree word more ⟨collect put bs, ?_⟩
    ⟨collect put cs, ?_⟩
  · exact ⟨word, [], bs, (List.append_nil _).symm, h, rfl, rfl⟩
  · exact ⟨word ++ more, [], cs, (List.append_nil _).symm, h', rfl, rfl⟩

/-- The decoder accepts exactly the well-formed bodies, none of which stands at the
front of another one, and gives the records that remain after their buckets. -/
theorem decodeTradeHistory_fold :
    (∀ bytes, (∃ h, decodeTradeHistory bytes = .ok h) ↔ WellFormed bytes) ∧
      (∀ bytes h, decodeTradeHistory bytes = .ok h ↔ Spells bytes h) ∧
      PrefixFree fun bytes => ∃ h, decodeTradeHistory bytes = .ok h := by
  refine ⟨fun bytes => decodeTradeHistory_ok_iff, fun bytes h => decodeTradeHistory_eq_ok, ?_⟩
  intro word more hword hmore
  rw [decodeTradeHistory_ok_iff] at hword hmore
  rcases hword with ⟨body, bs, rfl, hbody⟩ | ⟨body, bs, rfl, hbody⟩ <;>
    rcases hmore with ⟨body', bs', hsplit, hbody'⟩ | ⟨body', bs', hsplit, hbody'⟩ <;>
    obtain ⟨hsubtype, rfl⟩ := List.cons.inj hsplit
  · exact prefixFree_buckets kind_order body more ⟨bs, hbody⟩ ⟨bs', hbody'⟩
  · cases hsubtype
  · cases hsubtype
  · exact prefixFree_buckets kind_deal body more ⟨bs, hbody⟩ ⟨bs', hbody'⟩

end Mt5Open.Native

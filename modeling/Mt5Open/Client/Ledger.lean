import Mathlib.Data.Prod.Lex
import Mt5Open.Client.History
import Mt5Open.Lib.Layout
import Mt5Open.Native.TradeHistory

/-!
# Deals and orders of a period

`Client::deals` and `Client::orders` ask for a period and sort what the answer has of it.
An answer may hold more than the period, in buckets of which later ones take records of
earlier ones back.

A `Ledger` is the broker that answers.  `Reports` says what a list of the records of a period
is, and `history_reported` that the client has that list whenever it has an answer.
-/

namespace Mt5Open.Native.Client

open Lib

/-! ## The request -/

/-- `make_trade_history_request`. -/
def makeTradeHistoryRequest (subtype : UInt8) (fromTime toTime : Int) : Bytes :=
  [subtype] ++ LittleEndian.encodeInt 8 fromTime ++ LittleEndian.encodeInt 8 toTime ++
    LittleEndian.encode 4 0

/-- What a broker reads of a request. -/
structure Period where
  subtype : Nat
  fromTime : Int
  toTime : Int
  cached : Nat
  deriving DecidableEq

def periodSizes : List Nat := [1, 8, 8, 4]

def readPeriod (body : Bytes) : Option Period :=
  if body.length ≠ periodSizes.sum then none
  else
    match Layout.cut periodSizes body with
    | [subtype, fromTime, toTime, cached] =>
      some ⟨LittleEndian.decode subtype, LittleEndian.decodeInt fromTime,
        LittleEndian.decodeInt toTime, LittleEndian.decode cached⟩
    | _ => none

/-- A time of the type `i64`. -/
def IsTime (t : Int) : Prop := -(256 ^ 8 : Nat) ≤ 2 * t ∧ 2 * t < (256 ^ 8 : Nat)

theorem readPeriod_makeTradeHistoryRequest {fromTime toTime : Int} (hfrom : IsTime fromTime)
    (hto : IsTime toTime) (subtype : UInt8) :
    readPeriod (makeTradeHistoryRequest subtype fromTime toTime) =
      some ⟨subtype.toNat, fromTime, toTime, 0⟩ := by
  have hparts : makeTradeHistoryRequest subtype fromTime toTime =
      [LittleEndian.encode 1 subtype.toNat, LittleEndian.encodeInt 8 fromTime,
        LittleEndian.encodeInt 8 toTime, LittleEndian.encode 4 0].flatten := by
    simp [makeTradeHistoryRequest, LittleEndian.encode]
  have hsizes : [LittleEndian.encode 1 subtype.toNat, LittleEndian.encodeInt 8 fromTime,
      LittleEndian.encodeInt 8 toTime, LittleEndian.encode 4 0].map List.length = periodSizes := by
    simp [LittleEndian.length_encode, LittleEndian.length_encodeInt, periodSizes]
  have hlength : (makeTradeHistoryRequest subtype fromTime toTime).length = periodSizes.sum := by
    rw [hparts, List.length_flatten, hsizes]
  rw [readPeriod, if_neg (not_not_intro hlength), hparts, Layout.cut_flatten hsizes]
  simp only [LittleEndian.decode_encode_of_lt (n := 1) subtype.toNat_lt,
    LittleEndian.decodeInt_encodeInt hfrom.1 hfrom.2, LittleEndian.decodeInt_encodeInt hto.1 hto.2,
    LittleEndian.decode_encode_of_lt (n := 4) (Nat.two_pow_pos 32)]

/-! ## The client -/

/-- A kind of records: how they are asked for and sorted. -/
structure RecordKind (α : Type) where
  subtype : UInt8
  select : TradeHistory → Option (List α)
  unexpected : String
  stamp : α → Int
  ticket : α → Nat

def dealKind : RecordKind Deal where
  subtype := 33
  select
    | .deals deals => some deals
    | .orders _ => none
  unexpected := "expected deal history"
  stamp := Deal.time
  ticket := Deal.ticket

def orderKind : RecordKind Order where
  subtype := 32
  select
    | .orders orders => some orders
    | .deals _ => none
  unexpected := "expected order history"
  stamp := Order.timeDone
  ticket := Order.ticket

section Kind

variable {α σ : Type} (kind : RecordKind α) (fromTime toTime : Int)

/-- The record is in the period. -/
def RecordKind.Within (a : α) : Prop := fromTime ≤ kind.stamp a ∧ kind.stamp a < toTime

instance : DecidablePred (kind.Within fromTime toTime) := fun _ =>
  inferInstanceAs (Decidable (_ ∧ _))

/-- Sort by time and ticket. -/
def RecordKind.key (a : α) : Int ×ₗ Nat := toLex (kind.stamp a, kind.ticket a)

/-- `retain` and `sort_by_key`. -/
def RecordKind.listed (records : List α) : List α :=
  sortByKey kind.key (records.filter (kind.Within fromTime toTime))

/-- The records of a period. -/
def period (link : Link σ) : Act ProtocolError σ (List α) :=
  if toTime ≤ fromTime then return []
  else do
    let h ← fetch link decodeTradeHistory 101
      (makeTradeHistoryRequest kind.subtype fromTime toTime)
    match kind.select h with
    | some records => return kind.listed fromTime toTime records
    | none => Act.fail ⟨kind.unexpected⟩

end Kind

/-- `Client::deals`. -/
def deals {σ : Type} (link : Link σ) (fromTime toTime : Int) : Act ProtocolError σ (List Deal) :=
  period dealKind fromTime toTime link

/-- `Client::orders`. -/
def orders {σ : Type} (link : Link σ) (fromTime toTime : Int) :
    Act ProtocolError σ (List Order) :=
  period orderKind fromTime toTime link

/-! ## The broker -/

/-- What a broker has booked. -/
structure Ledger where
  deals : List Deal
  orders : List Order
  deals_nodup : deals.Nodup
  orders_nodup : orders.Nodup

/-- An instant of the period, which ends before its last instant. -/
def InPeriod (fromTime toTime time : Int) : Prop := fromTime ≤ time ∧ time < toTime

/-- The answers of a broker.  In the period that was asked for they have what is booked. -/
inductive Ledger.Answers (ledger : Ledger) : Bytes → Bytes → Prop
  | deals {request payload : Bytes} {r : Period} {records : List Deal}
      (hread : readPeriod request = some r) (hsubtype : r.subtype = 33)
      (hspells : TradeHistory.Spells payload (.deals records))
      (hbooked : ∀ d : Deal, InPeriod r.fromTime r.toTime d.time →
        (d ∈ records ↔ d ∈ ledger.deals)) :
      Answers ledger request payload
  | orders {request payload : Bytes} {r : Period} {records : List Order}
      (hread : readPeriod request = some r) (hsubtype : r.subtype = 32)
      (hspells : TradeHistory.Spells payload (.orders records))
      (hbooked : ∀ o : Order, InPeriod r.fromTime r.toTime o.timeDone →
        (o ∈ records ↔ o ∈ ledger.orders)) :
      Answers ledger request payload

/-! ## What is reported -/

section Reported

variable {α σ : Type}

/-- The booked records of the period, each once, by time and at one time by ticket. -/
structure Reports (booked : List α) (time : α → Int) (ticket : α → Nat) (fromTime toTime : Int)
    (records : List α) : Prop where
  mem_iff : ∀ a, a ∈ records ↔ a ∈ booked ∧ InPeriod fromTime toTime (time a)
  nodup : records.Nodup
  sorted : records.Pairwise fun a b => time a < time b ∨ time a = time b ∧ ticket a < ticket b

/-- An action that gets the records of a period with this request.  It has them or the error of its
request, and it asks for nothing when the period is empty. -/
structure Reported (get : Act ProtocolError σ (List α)) (request : Act ProtocolError σ Message)
    (booked : List α) (time : α → Int) (ticket : α → Nat) (fromTime toTime : Int) (s : σ) :
    Prop where
  empty : toTime ≤ fromTime → get s = (.ok [], s)
  ok : ∀ records t, get s = (.ok records, t) → Reports booked time ticket fromTime toTime records
  error : ∀ e t, get s = (.error e, t) → request s = (.error e, t)

variable {fromTime toTime : Int}

/-- Nothing is booked in an empty period. -/
theorem reports_nil (h : toTime ≤ fromTime) (booked : List α) (time : α → Int) (ticket : α → Nat) :
    Reports booked time ticket fromTime toTime [] := by
  refine ⟨fun a => ⟨fun ha => absurd ha List.not_mem_nil, fun ha => ?_⟩, .nil, .nil⟩
  obtain ⟨-, hfrom, hto⟩ := ha
  omega

/-- Records with a ticket each are reported when they are filtered and sorted. -/
theorem reports_listed {kind : RecordKind α} {records booked : List α}
    (hsorted : records.Pairwise fun a b => kind.ticket a < kind.ticket b)
    (hsame : ∀ a, InPeriod fromTime toTime (kind.stamp a) → (a ∈ records ↔ a ∈ booked)) :
    Reports booked kind.stamp kind.ticket fromTime toTime
      (kind.listed fromTime toTime records) := by
  have hperm := sortByKey_perm kind.key (records.filter (kind.Within fromTime toTime))
  have hdistinct : (kind.listed fromTime toTime records).Pairwise fun a b =>
      kind.ticket a ≠ kind.ticket b :=
    hperm.symm.pairwise ((hsorted.imp Nat.ne_of_lt).filter _) fun h => h.symm
  refine ⟨?_, hdistinct.imp fun hne heq => hne (congrArg _ heq), ?_⟩
  · intro a
    rw [RecordKind.listed, hperm.mem_iff, List.mem_filter, decide_eq_true_eq]
    exact and_congr_left fun hwithin => hsame a hwithin
  · refine ((sortByKey_ordered kind.key _).and hdistinct).imp fun hab => ?_
    obtain ⟨hle, hne⟩ := hab
    rcases (Prod.Lex.le_iff ..).mp hle with hlt | ⟨heq, hticket⟩
    · exact Or.inl hlt
    · exact Or.inr ⟨heq, lt_of_le_of_ne hticket hne⟩

theorem reported_of_answers (kind : RecordKind α) {link : Link σ} {booked : List α}
    (hanswers : ∀ s m t,
      link.request 101 (makeTradeHistoryRequest kind.subtype fromTime toTime) s = (.ok m, t) →
      ∃ h records, TradeHistory.Spells m.payload h ∧ kind.select h = some records ∧
        records.Pairwise (fun a b => kind.ticket a < kind.ticket b) ∧
        ∀ a, InPeriod fromTime toTime (kind.stamp a) → (a ∈ records ↔ a ∈ booked))
    (s : σ) :
    Reported (period kind fromTime toTime link)
      (link.request 101 (makeTradeHistoryRequest kind.subtype fromTime toTime)) booked kind.stamp
      kind.ticket fromTime toTime s := by
  by_cases hempty : toTime ≤ fromTime
  · have hrun : period kind fromTime toTime link s = (.ok [], s) := by
      rw [period, if_pos hempty]
      rfl
    refine ⟨fun _ => hrun, ?_, ?_⟩
    · intro records t hrecords
      rw [← Except.ok.inj (congrArg Prod.fst (hrun.symm.trans hrecords))]
      exact reports_nil hempty booked kind.stamp kind.ticket
    · intro e t herror
      cases hrun.symm.trans herror
  · rcases hrequest : link.request 101 (makeTradeHistoryRequest kind.subtype fromTime toTime) s with
      ⟨e | m, t⟩
    · have hrun : period kind fromTime toTime link s = (.error e, t) := by
        rw [period, if_neg hempty, fetch]
        exact Act.bind_of_error (Act.bind_of_error hrequest)
      refine ⟨fun h => absurd h hempty, ?_, ?_⟩
      · intro records t' hrecords
        cases hrun.symm.trans hrecords
      · intro e' t' herror
        cases hrun.symm.trans herror
        exact hrequest
    · obtain ⟨h, records, hspells, hselect, hsorted, hsame⟩ := hanswers s m t hrequest
      have hrun : period kind fromTime toTime link s =
          (.ok (kind.listed fromTime toTime records), t) := by
        have hfetch : fetch link decodeTradeHistory 101
            (makeTradeHistoryRequest kind.subtype fromTime toTime) s = (.ok h, t) := by
          rw [fetch, Act.bind_of_ok hrequest, decodeTradeHistory_eq_ok.mpr hspells]
          rfl
        rw [period, if_neg hempty, Act.bind_of_ok hfetch, hselect]
        rfl
      refine ⟨fun h => absurd h hempty, ?_, ?_⟩
      · intro records' t' hrecords
        rw [← Except.ok.inj (congrArg Prod.fst (hrun.symm.trans hrecords))]
        exact reports_listed hsorted hsame
      · intro e t' herror
        cases hrun.symm.trans herror

end Reported

theorem sorted_of_deals {payload : Bytes} {records : List Deal}
    (h : TradeHistory.Spells payload (.deals records)) :
    records.Pairwise fun a b => a.ticket < b.ticket := by
  cases h with
  | deals _ hremain => exact hremain.sorted

theorem sorted_of_orders {payload : Bytes} {records : List Order}
    (h : TradeHistory.Spells payload (.orders records)) :
    records.Pairwise fun a b => a.ticket < b.ticket := by
  cases h with
  | orders _ hremain => exact hremain.sorted

/-- A client of a broker has exactly the deals that are booked in a period, each once and by time
and ticket, and so the orders, or the error of its request.  It makes no request for a period that
is empty. -/
theorem history_reported {σ : Type} {ledger : Ledger} {link : Link σ}
    (hanswers : ∀ request s m t, link.request 101 request s = (.ok m, t) →
      ledger.Answers request m.payload)
    {fromTime toTime : Int} (hfrom : IsTime fromTime) (hto : IsTime toTime) (s : σ) :
    Reported (deals link fromTime toTime)
        (link.request 101 (makeTradeHistoryRequest 33 fromTime toTime)) ledger.deals Deal.time
        Deal.ticket fromTime toTime s ∧
      Reported (orders link fromTime toTime)
        (link.request 101 (makeTradeHistoryRequest 32 fromTime toTime)) ledger.orders
        Order.timeDone Order.ticket fromTime toTime s := by
  constructor
  · refine reported_of_answers dealKind (fun s m t hrequest => ?_) s
    have hread := readPeriod_makeTradeHistoryRequest hfrom hto 33
    cases hanswers _ s m t hrequest with
    | deals hread' hsubtype hspells hbooked =>
      obtain rfl := Option.some.inj (hread.symm.trans hread')
      exact ⟨_, _, hspells, rfl, sorted_of_deals hspells, hbooked⟩
    | orders hread' hsubtype _ _ =>
      rw [← Option.some.inj (hread.symm.trans hread')] at hsubtype
      cases hsubtype
  · refine reported_of_answers orderKind (fun s m t hrequest => ?_) s
    have hread := readPeriod_makeTradeHistoryRequest hfrom hto 32
    cases hanswers _ s m t hrequest with
    | orders hread' hsubtype hspells hbooked =>
      obtain rfl := Option.some.inj (hread.symm.trans hread')
      exact ⟨_, _, hspells, rfl, sorted_of_orders hspells, hbooked⟩
    | deals hread' hsubtype _ _ =>
      rw [← Option.some.inj (hread.symm.trans hread')] at hsubtype
      cases hsubtype

def sampleDealBytes (ticket time : Nat) : Bytes :=
  LittleEndian.encode 8 ticket ++ List.replicate 96 0 ++ LittleEndian.encode 8 time ++
    List.replicate 560 0

def sampleDeal (ticket : Nat) (time : Int) : Deal where
  ticket := ticket
  order := 0
  position := 0
  symbol := ""
  kind := 0
  entry := 0
  time := time
  timeMs := 0
  priceOpen := .zero
  price := .zero
  sl := .zero
  tp := .zero
  volume := 0
  profit := .zero
  commission := .zero
  swap := .zero
  magic := 0
  comment := ""
  profitRate := .zero
  marginRate := .zero
  contractSize := .zero
  moneyDigits := 0

/-- A bucket with the deals 101 and 102, and one that puts deal 103 in the place of 101. -/
def samplePayload : Bytes :=
  [33] ++ LittleEndian.encode 4 27 ++ LittleEndian.encode 4 2 ++
    LittleEndian.encode 8 1 ++ LittleEndian.encode 4 2 ++ LittleEndian.encode 4 0 ++
    LittleEndian.encode 4 2 ++ sampleDealBytes 101 5 ++ sampleDealBytes 102 9 ++
    LittleEndian.encode 8 2 ++ LittleEndian.encode 4 0 ++ LittleEndian.encode 4 1 ++
    LittleEndian.encode 8 101 ++ LittleEndian.encode 4 1 ++ sampleDealBytes 103 5 ++
    List.replicate 16 0

def sampleLedger : Ledger where
  deals := [sampleDeal 102 9, sampleDeal 103 5]
  orders := []
  deals_nodup := by decide
  orders_nodup := by decide

/-- A broker that answers for deals only. -/
def sampleLedgerLink : Link Unit where
  symbol _ _ := reject "unknown symbol"
  request _ payload :=
    if (readPeriod payload).map Period.subtype = some 33 then return ⟨101, 0, samplePayload, 1⟩
    else Act.fail ⟨"request timed out"⟩

theorem answers_sampleLedgerLink (request : Bytes) (s : Unit) (m : Message) (t : Unit)
    (h : sampleLedgerLink.request 101 request s = (.ok m, t)) :
    sampleLedger.Answers request m.payload := by
  have hspells : TradeHistory.Spells samplePayload (.deals sampleLedger.deals) :=
    decodeTradeHistory_eq_ok.mp (by decide +kernel)
  simp only [sampleLedgerLink] at h
  by_cases hsubtype : (readPeriod request).map Period.subtype = some 33
  · rw [if_pos hsubtype] at h
    cases h
    obtain ⟨r, hread, hdeals⟩ := Option.map_eq_some_iff.mp hsubtype
    exact .deals hread hdeals hspells fun _ _ => Iff.rfl
  · rw [if_neg hsubtype] at h
    cases h

/-- The deal of the period, without the one that it has replaced and the one behind it.  There is
no answer for orders, and none is needed for a period that is empty. -/
theorem history_reported_sampleLedgerLink :
    (∃ records, deals sampleLedgerLink 0 8 () = (.ok records, ()) ∧
      Reports [sampleDeal 102 9, sampleDeal 103 5] Deal.time Deal.ticket 0 8 records) ∧
    sampleLedgerLink.request 101 (makeTradeHistoryRequest 32 0 8) () =
      (.error ⟨"request timed out"⟩, ()) ∧
    orders sampleLedgerLink 8 8 () = (.ok [], ()) := by
  have hfrom : IsTime 0 := ⟨by decide, by decide⟩
  have hto : IsTime 8 := ⟨by decide, by decide⟩
  have hreported := history_reported answers_sampleLedgerLink hfrom hto ()
  refine ⟨?_, hreported.2.error _ _ (by decide +kernel),
    (history_reported answers_sampleLedgerLink hto hto ()).2.empty (Int.le_refl 8)⟩
  have hdeals : deals sampleLedgerLink 0 8 () = (.ok [sampleDeal 103 5], ()) := by decide +kernel
  exact ⟨_, hdeals, hreported.1.ok _ _ hdeals⟩

end Mt5Open.Native.Client

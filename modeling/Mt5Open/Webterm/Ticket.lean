import Mt5Open.Webterm.Request
import Mathlib.Data.Finset.Max

/-!
# The ticket of a receipt

The web terminal answers some trade commands with ticket 0.  For an order that
opens something, `Session::send` then looks for the new ticket by difference:
it lists the tickets of the account before the command and up to three times
after it, and takes the greatest ticket that was not on the first list.

`live_tickets` joins the answers of two queries and leaves out the one that
fails.  A ticket that the first listing missed in this way looks new
afterwards.  `ticket_new_iff` says for which books and which failures the
ticket of a receipt is new nevertheless.

The model starts where the operation has been packed.  It takes the answers of
the network as arguments, and a book is the tickets of the account.
-/

namespace Mt5Open.Webterm.Ticket

/-- `SessionError`. -/
inductive SessionError
  | unavailable (message : String)
  | rejected (retcode : Nat) (message : String)
  | other (message : String)
  deriving DecidableEq

/-- The kind of a trade request.  Its fields only enter the packed operation. -/
inductive Command
  | market
  | pending
  | closePosition
  | cancelOrder
  | modifyPosition
  | modifyOrder
  deriving DecidableEq

/-- The server's answer to an accepted trade request. -/
structure Receipt where
  retcode : Nat
  /-- The order or position created or acted on.  None when an entry was
  accepted but no new ticket could be found, which a host should treat as
  uncertain. -/
  ticket : Option Int
  deal : Option Int
  price : Option F64
  deriving DecidableEq

/-- The tickets that `Client::orders` and `Client::positions` answer with. -/
structure Queries where
  orders : Except Request.Error (List Int)
  positions : Except Request.Error (List Int)

/-- The tickets of an answer, none when the query failed. -/
def tickets (answer : Except Request.Error (List Int)) : Finset Int :=
  match answer with
  | .ok tickets => tickets.toFinset
  | .error _ => ∅

/-- Every ticket the account holds, orders and positions together. -/
def liveTickets (queries : Queries) : Finset Int :=
  tickets queries.orders ∪ tickets queries.positions

/-- What `Client::send_op` reads from the answer: the retcode, the deal, the
order and the price. -/
def sendOp (frame : Frame) : Nat × Int × Int × F64 :=
  match parseTradeEvent frame.body with
  | some event => (event.retcode, event.deal, event.order, event.price)
  | none =>
    let ret := if 4 ≤ frame.body.length then u32At frame.body else frame.resCode.toNat
    (ret, 0, 0, .zero)

/-- `matches!(cmd, Command::Market { .. } | Command::Pending { .. })`. -/
def Command.isEntry : Command → Bool
  | .market | .pending => true
  | _ => false

/-- `live_tickets(&c).await.difference(&before).copied().max()`. -/
def newestTicket (before : Finset Int) (after : Queries) : Option Int :=
  let fresh := liveTickets after \ before
  if h : fresh.Nonempty then some (fresh.max' h) else none

/-- The ticket that the first of the three attempts finds, or else the answer's own. -/
def findTicket (before : Finset Int) (after : Nat → Queries) (ticket : Int) : Int :=
  match (List.range 3).findSome? fun attempt => newestTicket before (after attempt) with
  | some found => found
  | none => ticket

/-- `Session::send`, from the packed operation on. -/
def send (cmd : Command) (before : Queries) (answer : Except Request.Error Frame)
    (after : Nat → Queries) : Except SessionError Receipt :=
  let before := if cmd.isEntry then liveTickets before else ∅
  match answer with
  | .error e => .error (.other e.text)
  | .ok frame =>
    let (ret, deal, ticket, price) := sendOp frame
    if ret ≠ 0 ∧ ret ≠ 10009 then .error (.rejected ret s!"retcode {ret}")
    else
      let ticket := if cmd.isEntry ∧ ticket = 0 then findTicket before after ticket else ticket
      .ok
        { retcode := ret
          ticket := if ticket = 0 then none else some ticket
          deal := if deal = 0 then none else some deal
          price := if price.isNonzero then some price else none }

/-! ## When the ticket is new -/

/-- The orders and the positions that the account holds. -/
structure Book where
  orders : List Int
  positions : List Int

/-- The account holds the ticket as an order or as a position. -/
def Book.Holds (book : Book) (ticket : Int) : Prop :=
  ticket ∈ book.orders ∨ ticket ∈ book.positions

/-- The answers to the two queries on a book, either of which can fail. -/
def Book.query (book : Book) (orders positions : Option Request.Error) : Queries where
  orders := orders.elim (.ok book.orders) .error
  positions := positions.elim (.ok book.positions) .error

/-- The trade was accepted, and its answer carries no ticket. -/
def AcceptedWithoutTicket (answer : Except Request.Error Frame) : Prop :=
  ∃ frame ret deal price, answer = .ok frame ∧ sendOp frame = (ret, deal, 0, price) ∧
    (ret = 0 ∨ ret = 10009)

/-- The first attempt that sees a ticket which was not listed before sees, above
each nonzero one that the account held, another such ticket. -/
def Distinguished (book : Book) (before : Finset Int) (after : Nat → Queries) : Prop :=
  ∀ attempt < 3, (∀ earlier < attempt, liveTickets (after earlier) ⊆ before) →
    ∀ old ∈ liveTickets (after attempt), book.Holds old → old ∉ before → old ≠ 0 →
      ∃ other ∈ liveTickets (after attempt), other ∉ before ∧ old < other

theorem newestTicket_eq_some {before : Finset Int} {after : Queries} {found : Int} :
    newestTicket before after = some found ↔
      found ∈ liveTickets after \ before ∧ ∀ other ∈ liveTickets after \ before, other ≤ found := by
  unfold newestTicket
  dsimp only
  split
  · rename_i hfresh
    rw [Option.some.injEq]
    constructor
    · rintro rfl
      exact ⟨Finset.max'_mem _ hfresh, fun other hother => Finset.le_max' _ other hother⟩
    · rintro ⟨hmem, hgreatest⟩
      exact le_antisymm (hgreatest _ (Finset.max'_mem _ hfresh)) (Finset.le_max' _ found hmem)
  · rename_i hnone
    constructor
    · intro h
      cases h
    · rintro ⟨hmem, -⟩
      exact absurd ⟨found, hmem⟩ hnone

theorem newestTicket_eq_none {before : Finset Int} {after : Queries} :
    newestTicket before after = none ↔ liveTickets after ⊆ before := by
  unfold newestTicket
  dsimp only
  split
  · rename_i hfresh
    simp only [reduceCtorEq, false_iff]
    intro hsubset
    rw [Finset.sdiff_eq_empty_iff_subset.mpr hsubset] at hfresh
    exact Finset.not_nonempty_empty hfresh
  · rename_i hnone
    simp only [true_iff]
    exact Finset.sdiff_eq_empty_iff_subset.mp (Finset.not_nonempty_iff_eq_empty.mp hnone)

/-- A search through the first `n` numbers stops at the first one that answers. -/
theorem findSome?_range_eq_some {α : Type*} {f : Nat → Option α} {n : Nat} {a : α} :
    (List.range n).findSome? f = some a ↔
      ∃ k < n, (∀ j < k, f j = none) ∧ f k = some a := by
  rw [List.findSome?_eq_some_iff]
  constructor
  · rintro ⟨front, k, back, hsplit, ha, hfront⟩
    obtain ⟨hlength, hk⟩ : front.length < n ∧ k = front.length := by
      have hget : (List.range n)[front.length]? = some k := by simp [hsplit]
      obtain ⟨hlt, hget⟩ := List.getElem?_eq_some_iff.mp hget
      exact ⟨by simpa using hlt, by simpa using hget.symm⟩
    subst hk
    refine ⟨front.length, hlength, ?_, ha⟩
    intro j hj
    apply hfront
    have hget : (List.range n)[j]? = front[j]? := by
      rw [hsplit, List.getElem?_append_left hj]
    rw [List.getElem?_range (by omega)] at hget
    exact List.mem_of_getElem? hget.symm
  · rintro ⟨k, hk, hfirst, ha⟩
    refine ⟨List.range k, k, (List.range (n - (k + 1))).map (k + 1 + ·), ?_, ha, ?_⟩
    · rw [← List.singleton_append, ← List.append_assoc, ← List.range_succ, ← List.range_add]
      congr 1
      omega
    · intro j hj
      exact hfirst j (List.mem_range.mp hj)

/-- The first attempt that sees a ticket not listed before decides. -/
theorem findTicket_eq {before : Finset Int} {after : Nat → Queries} {found : Int}
    (hne : found ≠ 0) :
    findTicket before after 0 = found ↔ ∃ attempt < 3,
      (∀ earlier < attempt, liveTickets (after earlier) ⊆ before) ∧
        newestTicket before (after attempt) = some found := by
  have hsearch : findTicket before after 0 = found ↔
      (List.range 3).findSome? (fun attempt => newestTicket before (after attempt)) =
        some found := by
    unfold findTicket
    split
    · rename_i other hother
      rw [hother, Option.some.injEq]
    · rename_i hnone
      rw [hnone]
      simp [hne.symm]
  rw [hsearch, findSome?_range_eq_some]
  simp only [newestTicket_eq_none]

/-- A receipt has a ticket when the trade was accepted and the search found one. -/
theorem send_ticket_iff {cmd : Command} {before : Queries} {answer : Except Request.Error Frame}
    {after : Nat → Queries} {found : Int} (hentry : cmd.isEntry = true)
    (hzero : ∀ frame, answer = .ok frame → (sendOp frame).2.2.1 = 0) :
    (∃ receipt, send cmd before answer after = .ok receipt ∧ receipt.ticket = some found) ↔
      AcceptedWithoutTicket answer ∧ found ≠ 0 ∧
        findTicket (liveTickets before) after 0 = found := by
  cases answer with
  | error e =>
    constructor
    · rintro ⟨receipt, hsend, -⟩
      cases hsend
    · rintro ⟨⟨frame, ret, deal, price, hframe, -⟩, -⟩
      cases hframe
  | ok frame =>
    have hticket : (sendOp frame).2.2.1 = 0 := hzero frame rfl
    obtain ⟨⟨ret, deal, ticket, price⟩, hop⟩ : ∃ op, sendOp frame = op := ⟨_, rfl⟩
    obtain rfl : ticket = 0 := by rw [hop] at hticket; exact hticket
    have haccepted : AcceptedWithoutTicket (.ok frame) ↔ ret = 0 ∨ ret = 10009 := by
      constructor
      · rintro ⟨other, ret', deal', price', hother, hop', hret⟩
        obtain rfl := Except.ok.inj hother
        rw [hop] at hop'
        cases hop'
        exact hret
      · intro hret
        exact ⟨frame, ret, deal, price, rfl, hop, hret⟩
    rw [haccepted]
    by_cases hret : ret = 0 ∨ ret = 10009
    · have hnot : ¬ (ret ≠ 0 ∧ ret ≠ 10009) := by omega
      simp only [send, hop, hentry, if_neg hnot, if_true, and_self]
      simp only [Except.ok.injEq, exists_eq_left', hret, true_and]
      by_cases hfound : findTicket (liveTickets before) after 0 = 0
      · rw [if_pos hfound, hfound]
        constructor
        · intro h
          cases h
        · rintro ⟨hne, rfl⟩
          exact absurd rfl hne
      · rw [if_neg hfound, Option.some.injEq]
        constructor
        · rintro rfl
          exact ⟨hfound, rfl⟩
        · exact fun h => h.2
    · have hrejected : ret ≠ 0 ∧ ret ≠ 10009 := by omega
      simp [send, hop, hrejected]

/-- For an entry whose answer carries no ticket, the ticket of the receipt is
new exactly when each ticket that the first listing missed is topped by another
one, in the attempt that decides. -/
theorem ticket_new_iff {cmd : Command} (hentry : cmd.isEntry = true) (book : Book)
    (orders positions : Option Request.Error) {answer : Except Request.Error Frame}
    (hzero : ∀ frame, answer = .ok frame → (sendOp frame).2.2.1 = 0) (after : Nat → Queries) :
    (∀ receipt ticket, send cmd (book.query orders positions) answer after = .ok receipt →
        receipt.ticket = some ticket → ¬ book.Holds ticket) ↔
      (AcceptedWithoutTicket answer →
        Distinguished book (liveTickets (book.query orders positions)) after) := by
  have hreceipt : (∀ receipt ticket,
      send cmd (book.query orders positions) answer after = .ok receipt →
        receipt.ticket = some ticket → ¬ book.Holds ticket) ↔
      ∀ ticket, AcceptedWithoutTicket answer ∧ ticket ≠ 0 ∧
        findTicket (liveTickets (book.query orders positions)) after 0 = ticket →
          ¬ book.Holds ticket := by
    simp only [← send_ticket_iff hentry hzero, forall_exists_index, and_imp]
    exact forall_comm
  rw [hreceipt]
  generalize liveTickets (book.query orders positions) = before
  constructor
  · intro h haccepted attempt hattempt hearlier old hold hheld hmissed hne
    by_contra hnone
    push Not at hnone
    have hnewest : newestTicket before (after attempt) = some old := by
      rw [newestTicket_eq_some]
      refine ⟨Finset.mem_sdiff.mpr ⟨hold, hmissed⟩, ?_⟩
      intro other hother
      exact hnone other (Finset.mem_sdiff.mp hother).1 (Finset.mem_sdiff.mp hother).2
    have hfind : findTicket before after 0 = old :=
      (findTicket_eq hne).mpr ⟨attempt, hattempt, hearlier, hnewest⟩
    exact h old ⟨haccepted, hne, hfind⟩ hheld
  · rintro h ticket ⟨haccepted, hne, hfind⟩ hheld
    obtain ⟨attempt, hattempt, hearlier, hnewest⟩ := (findTicket_eq hne).mp hfind
    obtain ⟨hmem, hgreatest⟩ := newestTicket_eq_some.mp hnewest
    obtain ⟨hseen, hmissed⟩ := Finset.mem_sdiff.mp hmem
    obtain ⟨other, hother, hfresh, hlt⟩ :=
      h haccepted attempt hattempt hearlier ticket hseen hheld hmissed hne
    exact absurd (hgreatest other (Finset.mem_sdiff.mpr ⟨hother, hfresh⟩)) (not_le.mpr hlt)

/-- When both listings before the command succeed, nothing that the account
held is missed. -/
theorem distinguished_of_listed (book : Book) (after : Nat → Queries) :
    Distinguished book (liveTickets (book.query none none)) after := by
  intro attempt _ _ old _ hheld hmissed
  refine absurd ?_ hmissed
  rcases hheld with horder | hposition
  · exact Finset.mem_union_left _ (List.mem_toFinset.mpr horder)
  · exact Finset.mem_union_right _ (List.mem_toFinset.mpr hposition)

/-- The first listing misses order 7, and the new order 9 is above it. -/
theorem ticket_new_iff_run :
    send .market (Book.query ⟨[7], [3]⟩ (some .timeout) none) (.ok ⟨0, CMD_TRADE, 0, [0, 0, 0, 0]⟩)
        (fun _ => ⟨.ok [7, 9], .ok [3]⟩) = .ok ⟨0, some 9, none, none⟩ ∧
      ¬ Book.Holds ⟨[7], [3]⟩ 9 := by
  have hsend : send .market (Book.query ⟨[7], [3]⟩ (some .timeout) none)
      (.ok ⟨0, CMD_TRADE, 0, [0, 0, 0, 0]⟩) (fun _ => ⟨.ok [7, 9], .ok [3]⟩) =
        .ok ⟨0, some 9, none, none⟩ := by decide
  refine ⟨hsend, (ticket_new_iff (by decide) _ _ _ ?_ _).mpr ?_ _ 9 hsend rfl⟩
  · intro frame hframe
    cases hframe
    decide
  · intro _ attempt _ _ old hold hheld _ _
    refine ⟨9, ?_, ?_, ?_⟩
    · show (9 : Int) ∈ liveTickets ⟨.ok [7, 9], .ok [3]⟩
      decide
    · decide
    · rcases hheld with hheld | hheld <;> simp at hheld <;> omega

/-- The listing of orders before the command fails.  The old order 7 is all that
is seen afterwards, and the receipt names it. -/
theorem not_ticket_new :
    ¬ ∀ (cmd : Command), cmd.isEntry = true → ∀ (book : Book)
      (orders positions : Option Request.Error) (answer : Except Request.Error Frame),
      (∀ frame, answer = .ok frame → (sendOp frame).2.2.1 = 0) → ∀ (after : Nat → Queries) receipt
        ticket, send cmd (book.query orders positions) answer after = .ok receipt →
          receipt.ticket = some ticket → ¬ book.Holds ticket := by
  intro h
  have hzero : ∀ frame, (Except.ok ⟨0, CMD_TRADE, 0, [0, 0, 0, 0]⟩ : Except Request.Error Frame) =
      .ok frame → (sendOp frame).2.2.1 = 0 := by
    rintro frame hframe
    cases hframe
    decide
  have hnew := h .market rfl ⟨[7], [3]⟩ (some .timeout) none (.ok ⟨0, CMD_TRADE, 0, [0, 0, 0, 0]⟩)
    hzero (fun _ => ⟨.ok [7], .ok [3]⟩) ⟨0, some 7, none, none⟩ 7 (by decide) rfl
  exact hnew (Or.inl (by decide))

end Mt5Open.Webterm.Ticket

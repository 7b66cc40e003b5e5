import Mt5Open.Native.Formats
import Mt5Open.Native.Updates

/-!
# The grammar of the updates

An update is a byte that says its kind, a count, and that many records of this
kind.  The readers of symbols, orders and positions accept nothing behind the
records.  The reader of account records is another one, and it only asks for
enough bytes.

`decodeUpdate_strict_iff` says when an update is read strictly: always, unless it
holds the account records that it declares.
-/

namespace Mt5Open.Native

open Lib
open SyncGrammar (Format word countWord records_accepted)

namespace Update

/-! ## Records -/

/-- A counted array of 40-byte fields that are not read. -/
def fields40 : Format Bytes := do
  let n ← countWord
  Grammar.block (n * 40)

def symbolRecord : Format Symbol := do
  let _ ← Grammar.block 32
  let info ← Grammar.block 1952
  let group ← Grammar.block 1228
  let symbol ← Grammar.accepted (Symbol.parse info group)
  let _ ← Grammar.items fields40 14
  let _ ← Grammar.block 80
  return symbol

/-- The change that an action stands for. -/
def changeOf (action : Int) : Option Change :=
  if action = 0 then some .add
  else if action = 1 then some .update
  else if action = 2 then some .delete
  else none

def transactionRecord : Format Change := fun bytes change =>
  bytes.length = 152 ∧ changeOf (LittleEndian.decodeInt (slice bytes 4 4)) = some change

def orderRecord : Format (Change × Order) := do
  let action ← transactionRecord
  let order ← parsed 636 Order.parse
  return (action, order)

def deal : Format Deal := parsed 672 Deal.parse

/-- The deal stands before the position. -/
def positionRecord : Format PositionChange := do
  let action ← transactionRecord
  let executed ← deal
  let position ← deal
  let account ← parsed 192 fun bytes => Record.new bytes 192
  let _ ← Grammar.block 64
  let relatedDeals ← counted deal
  let relatedPositions ← counted deal
  return {
    deal := executed
    position
    balance :=
      if action = .add ∧ executed.ticket ≠ 0 then
        some (account.f64 8 (Nat.le_add_right _ 176), account.f64 16 (Nat.le_add_right _ 168))
      else none
    relatedDeals
    relatedPositions }

def accountRecord : Format AccountState := do
  let _ ← Grammar.block UPDATE_PREFIX
  parsed ACCOUNT_REC_SIZE parseAccountRec

/-- A kind, and exactly the records that the count behind it says. -/
inductive Spells : Bytes → Update → Prop
  | symbols {body : Bytes} {records : List Symbol} (hbody : counted symbolRecord body records) :
      Spells (7 :: body) (.symbols records)
  | account {body : Bytes} {records : List AccountState}
      (hbody : counted accountRecord body records) : Spells (19 :: body) (.account records)
  | orders {body : Bytes} {records : List (Change × Order)}
      (hbody : counted orderRecord body records) : Spells (31 :: body) (.orders records)
  | positions {body : Bytes} {records : List PositionChange}
      (hbody : counted positionRecord body records) : Spells (33 :: body) (.positions records)

/-- What is accepted is read from exactly these bytes: they spell the update, and
they are neither longer nor shorter than another accepted update that begins alike. -/
def Strict (bytes : Bytes) : Prop :=
  ∀ update, decodeUpdate bytes = .ok update →
    Spells bytes update ∧
      (∀ more, more ≠ [] → ∀ longer, decodeUpdate (bytes ++ more) ≠ .ok longer) ∧
      ∀ front more, bytes = front ++ more → more ≠ [] → ∀ shorter, decodeUpdate front ≠ .ok shorter

/-- An account update with at least the records that it declares. -/
def HoldsAccounts (bytes : Bytes) : Prop :=
  bytes.head? = some 19 ∧ 5 ≤ bytes.length ∧
    0 ≤ LittleEndian.decodeInt (slice bytes 1 4) ∧
      5 + (LittleEndian.decodeInt (slice bytes 1 4)).toNat * (UPDATE_PREFIX + ACCOUNT_REC_SIZE) ≤
        bytes.length

instance (bytes : Bytes) : Decidable (HoldsAccounts bytes) :=
  inferInstanceAs (Decidable (_ ∧ _ ∧ _ ∧ _))

/-! ## The readers read the records -/

section Readers

open Decoder Reader
open Grammar (AtLeast)

theorem parses_fields40 :
    Parses (count 40 >>= fun n => take (n * 40)) fields40 :=
  parses_count_bind (fun n => parses_take (n * 40)) (fun n => .block (n * 40)) (by decide)

theorem parses_symbolUpdate : Parses symbolUpdate symbolRecord := by
  refine (parses_take 32).bind fun _ => (parses_take 1952).bind fun info => ?_
  refine (parses_take 1228).bind fun group => ?_
  refine (Parses.ofResult (Symbol.parse info group)).bind fun symbol => ?_
  exact (parses_fields40.times 14).bind fun _ => (parses_take 80).bind fun _ => .pure symbol

theorem parses_transaction : Parses transaction transactionRecord := by
  have hpure : ∀ {change : Change} {action : Int}, changeOf action = some change →
      Parses (pure change : Reader Change) fun word c => word = [] ∧ changeOf action = some c := by
    intro change action haction
    refine (Parses.pure change).congr fun word c => and_congr_right fun _ => ?_
    rw [haction, Option.some.injEq]
    exact eq_comm
  refine ((parses_take 152).bind (h := fun bytes word change => word = [] ∧
    changeOf (LittleEndian.decodeInt (slice bytes 4 4)) = some change) fun bytes => ?_).congr ?_
  · dsimp only
    generalize LittleEndian.decodeInt (slice bytes 4 4) = action
    by_cases hadd : action = 0
    · rw [if_pos hadd]
      exact hpure (if_pos hadd)
    by_cases hupdate : action = 1
    · rw [if_neg hadd, if_pos hupdate]
      exact hpure (by rw [changeOf, if_neg hadd, if_pos hupdate])
    by_cases hdelete : action = 2
    · rw [if_neg hadd, if_neg hupdate, if_pos hdelete]
      exact hpure (by rw [changeOf, if_neg hadd, if_neg hupdate, if_pos hdelete])
    · rw [if_neg hadd, if_neg hupdate, if_neg hdelete]
      refine Parses.raise _ fun word change h => ?_
      have hnone : changeOf action = none := by
        rw [changeOf, if_neg hadd, if_neg hupdate, if_neg hdelete]
      cases hnone.symm.trans h.2
  · intro word change
    constructor
    · rintro ⟨bytes, rest, _, rfl, ⟨hlength, rfl⟩, rfl, hchange⟩
      rw [List.append_nil]
      exact ⟨hlength, hchange⟩
    · rintro ⟨hlength, hchange⟩
      exact ⟨word, [], word, (List.append_nil word).symm, ⟨hlength, rfl⟩, rfl, hchange⟩

theorem parses_orderUpdate : Parses orderUpdate orderRecord := by
  refine parses_transaction.bind fun action => ?_
  rw [parsed, Grammar.bind_assoc]
  exact (parses_take 636).bind fun bytes => (Parses.ofResult _).bind fun order => .pure _

theorem parses_dealRecord : Parses dealRecord deal := parses_parsed 672 Deal.parse

theorem parses_relatedDeals {β : Type} {f : List Deal → Reader β} {h : List Deal → Format β}
    (hf : ∀ deals, Parses (f deals) (h deals)) :
    Parses (count 672 >>= fun n => Decoder.times dealRecord n >>= f) (counted deal >>= h) := by
  have hassoc : (count 672 >>= fun n => Decoder.times dealRecord n >>= f) =
      (count 672 >>= fun n => Decoder.times dealRecord n) >>= f := (bind_assoc _ _ _).symm
  rw [hassoc]
  exact (parses_counted parses_dealRecord (atLeast_parsed 672 _) (by decide)).bind hf

theorem parses_positionUpdate : Parses positionUpdate positionRecord := by
  refine parses_transaction.bind fun action => parses_dealRecord.bind fun executed => ?_
  refine parses_dealRecord.bind fun position => ?_
  rw [parsed, Grammar.bind_assoc]
  refine (parses_take 192).bind fun bytes => (Parses.ofResult _).bind fun account => ?_
  refine (parses_take 64).bind fun _ => parses_relatedDeals fun deals => ?_
  exact parses_relatedDeals fun positions => .pure _

/-! Every record is as long as the stride that its count is checked with. -/

theorem atLeast_countWord : countWord.AtLeast 4 := fun _ _ h => Nat.le_of_eq h.1.symm

theorem atLeast_transactionRecord : transactionRecord.AtLeast 152 :=
  fun _ _ h => Nat.le_of_eq h.1.symm

theorem atLeast_symbolRecord : symbolRecord.AtLeast 3348 := by
  refine AtLeast.mono (m := 32 + (1952 + (1228 + (0 + (14 * 4 + 80))))) ?_ (by decide)
  refine (AtLeast.block 32).bind fun _ => (AtLeast.block 1952).bind fun _ => ?_
  refine (AtLeast.block 1228).bind fun _ => AtLeast.zero.bind fun _ => ?_
  have hfields : fields40.AtLeast 4 := atLeast_countWord.bind_left
  exact (hfields.items 14).bind fun _ => (AtLeast.block 80).bind_left

theorem atLeast_orderRecord : orderRecord.AtLeast 788 :=
  atLeast_transactionRecord.bind fun _ => (atLeast_parsed 636 _).bind_left

theorem atLeast_positionRecord : positionRecord.AtLeast 1760 := by
  have hrelated : (counted deal).AtLeast 4 := atLeast_countWord.bind_left
  refine AtLeast.mono (m := 152 + (672 + (672 + (192 + (64 + (4 + 4)))))) ?_ (by decide)
  refine atLeast_transactionRecord.bind fun _ => (atLeast_parsed 672 _).bind fun _ => ?_
  refine (atLeast_parsed 672 _).bind fun _ => (atLeast_parsed 192 _).bind fun _ => ?_
  exact (AtLeast.block 64).bind fun _ => hrelated.bind fun _ => hrelated.bind_left

/-- A kind whose reader accepts no bytes behind its records. -/
theorem decode_eq_ok {α : Type} {kind : UInt8} {stride : Nat} {x : Reader α} {g : Format α}
    {c : List α → Update} (hx : Parses x g) (hg : AtLeast g stride) (hpos : 1 ≤ stride)
    (hkind : ∀ bytes body, updateRecords bytes (kind :: body) =
      (count stride >>= fun n => Decoder.times x n >>= fun records => exhausted (c records)) body)
    {body : Bytes} {update : Update} :
    decodeUpdate (kind :: body) = .ok update ↔
      ∃ records, counted g body records ∧ update = c records := by
  have hassoc : (count stride >>= fun n =>
        Decoder.times x n >>= fun records => exhausted (c records)) =
      (count stride >>= fun n => Decoder.times x n) >>= fun records =>
        ended "trailing trade update bytes" (c records) := (bind_assoc _ _ _).symm
  have hrun : decodeUpdate (kind :: body) = ((count stride >>= fun n => Decoder.times x n) >>=
      fun records => ended "trailing trade update bytes" (c records)).run' body := by
    unfold decodeUpdate StateT.run'
    rw [hkind, hassoc]
  rw [hrun, run_ended (parses_counted hx hg hpos)]

end Readers

/-! ## Kinds that are read strictly -/

theorem strict_of_kind {kind : UInt8}
    (hspells : ∀ body update, decodeUpdate (kind :: body) = .ok update →
      Spells (kind :: body) update)
    (hfree : PrefixFree fun body => ∃ update, decodeUpdate (kind :: body) = .ok update)
    (body : Bytes) : Strict (kind :: body) := by
  intro update hok
  refine ⟨hspells body update hok, ?_, ?_⟩
  · intro more hmore longer hlonger
    exact hmore (hfree body more ⟨update, hok⟩ ⟨longer, hlonger⟩)
  · intro front more hsplit hmore shorter hshorter
    cases front with
    | nil => cases hshorter
    | cons first front =>
      obtain ⟨rfl, rfl⟩ := List.cons.inj hsplit
      exact hmore (hfree front more ⟨shorter, hshorter⟩ ⟨update, hok⟩)

/-- What is decoded from counted records alone. -/
theorem strict_of_counted {α : Type} {kind : UInt8} {g : Format α} {c : List α → Update}
    (hdecode : ∀ {body update}, decodeUpdate (kind :: body) = .ok update ↔
      ∃ records, counted g body records ∧ update = c records)
    (hspells : ∀ {body records}, counted g body records → Spells (kind :: body) (c records))
    (hfree : PrefixFree fun body => ∃ records, counted g body records) (body : Bytes) :
    Strict (kind :: body) := by
  refine strict_of_kind (fun body update hok => ?_) ?_ body
  · obtain ⟨records, hbody, rfl⟩ := hdecode.mp hok
    exact hspells hbody
  · rintro word more ⟨update, hword⟩ ⟨longer, hmore⟩
    obtain ⟨records, hword, -⟩ := hdecode.mp hword
    obtain ⟨others, hmore, -⟩ := hdecode.mp hmore
    exact hfree word more ⟨records, hword⟩ ⟨others, hmore⟩

theorem strict_symbols (body : Bytes) : Strict (7 :: body) :=
  strict_of_counted
    (decode_eq_ok parses_symbolUpdate atLeast_symbolRecord (by decide) fun _ body =>
      (Decoder.bind_of_ok (Reader.byte_cons 7 body)).trans rfl)
    .symbols (Reader.parses_counted parses_symbolUpdate atLeast_symbolRecord (by decide)).prefixFree
    body

theorem strict_orders (body : Bytes) : Strict (31 :: body) :=
  strict_of_counted
    (decode_eq_ok parses_orderUpdate atLeast_orderRecord (by decide) fun _ body =>
      (Decoder.bind_of_ok (Reader.byte_cons 31 body)).trans rfl)
    .orders (Reader.parses_counted parses_orderUpdate atLeast_orderRecord (by decide)).prefixFree
    body

theorem strict_positions (body : Bytes) : Strict (33 :: body) :=
  strict_of_counted
    (decode_eq_ok parses_positionUpdate atLeast_positionRecord (by decide) fun _ body =>
      (Decoder.bind_of_ok (Reader.byte_cons 33 body)).trans rfl)
    .positions
    (Reader.parses_counted parses_positionUpdate atLeast_positionRecord (by decide)).prefixFree body

/-! ## Account records -/

theorem decodeUpdate_account (body : Bytes) :
    decodeUpdate (19 :: body) = (parseAccountUpdate19 (19 :: body)).map .account := by
  unfold decodeUpdate StateT.run' updateRecords
  rw [Decoder.bind_of_ok (Reader.byte_cons 19 body), if_neg (by decide), if_pos rfl]
  cases parseAccountUpdate19 (19 :: body) <;> rfl

/-- An account update is accepted when it holds its records, whatever stands behind
them. -/
theorem decodeUpdate_account_ok_iff (body : Bytes) :
    (∃ update, decodeUpdate (19 :: body) = .ok update) ↔ HoldsAccounts (19 :: body) := by
  rw [decodeUpdate_account]
  generalize hbytes : 19 :: body = bytes
  have hhead : bytes.head? = some 19 := by rw [← hbytes]; rfl
  have hfirst : ¬bytes.headD 0 ≠ 19 := by rw [← hbytes]; exact not_not_intro rfl
  unfold parseAccountUpdate19 HoldsAccounts
  by_cases hshort : bytes.length < 5
  · rw [if_pos hshort]
    exact ⟨nofun, fun h => absurd h.2.1 (Nat.not_le.mpr hshort)⟩
  rw [if_neg hshort, if_neg hfirst]
  by_cases hnegative : LittleEndian.decodeInt (slice bytes 1 4) < 0
  · rw [if_pos hnegative]
    exact ⟨nofun, fun h => absurd h.2.2.1 (Int.not_le.mpr hnegative)⟩
  rw [if_neg hnegative]
  dsimp only
  generalize hcount : (LittleEndian.decodeInt (slice bytes 1 4)).toNat = n
  by_cases hfew : bytes.length < 5 + n * (UPDATE_PREFIX + ACCOUNT_REC_SIZE)
  · rw [if_pos hfew]
    exact ⟨nofun, fun h => absurd h.2.2.2 (Nat.not_le.mpr hfew)⟩
  rw [if_neg hfew]
  refine iff_of_true ?_ ⟨hhead, Nat.le_of_not_lt hshort, Int.not_lt.mp hnegative,
    Nat.le_of_not_lt hfew⟩
  have hrecord : ∀ i ∈ List.range n, ∃ account, parseAccountRec (slice bytes
      (5 + i * (UPDATE_PREFIX + ACCOUNT_REC_SIZE) + UPDATE_PREFIX) ACCOUNT_REC_SIZE) =
        .ok account := by
    intro i hi
    have hlast : (i + 1) * (UPDATE_PREFIX + ACCOUNT_REC_SIZE) ≤
        n * (UPDATE_PREFIX + ACCOUNT_REC_SIZE) := Nat.mul_le_mul_right _ (List.mem_range.mp hi)
    rw [Nat.succ_mul] at hlast
    exact records_accepted.1 ⟨_, length_slice (by omega)⟩
  obtain ⟨accounts, haccounts⟩ := mapM_ok_of_forall hrecord
  exact ⟨.account accounts, by rw [haccounts]; rfl⟩

theorem HoldsAccounts.append {bytes more : Bytes} (h : HoldsAccounts bytes) :
    HoldsAccounts (bytes ++ more) := by
  obtain ⟨hhead, hlength, hcount, hrecords⟩ := h
  have hslice : slice (bytes ++ more) 1 4 = slice bytes 1 4 := slice_append more hlength
  refine ⟨?_, ?_, ?_, ?_⟩
  · rw [List.head?_append, hhead]
    rfl
  · rw [List.length_append]
    omega
  · rw [hslice]
    exact hcount
  · rw [hslice, List.length_append]
    omega

end Update

open Update

/-- An update of a known kind is read strictly, unless it is an account update that
holds the records that it declares. -/
theorem decodeUpdate_strict_iff {bytes : Bytes}
    (hkind : bytes.head? ∈ [some 7, some 19, some 31, some 33]) :
    Strict bytes ↔ ¬HoldsAccounts bytes := by
  have hother : ∀ {kind : UInt8} {body : Bytes}, kind ≠ 19 → ¬HoldsAccounts (kind :: body) :=
    fun hne h => hne (Option.some.inj h.1)
  cases bytes with
  | nil => simp at hkind
  | cons kind body =>
    simp only [List.head?_cons, List.mem_cons, Option.some.injEq, List.not_mem_nil, or_false]
      at hkind
    rcases hkind with rfl | rfl | rfl | rfl
    · exact iff_of_true (strict_symbols body) (hother (by decide))
    · constructor
      · intro hstrict hholds
        obtain ⟨update, hok⟩ := (decodeUpdate_account_ok_iff body).mpr hholds
        obtain ⟨longer, hlonger⟩ := (decodeUpdate_account_ok_iff (body ++ [0])).mpr hholds.append
        exact (hstrict update hok).2.1 [0] (List.cons_ne_nil _ _) longer hlonger
      · intro hholds update hok
        exact absurd ((decodeUpdate_account_ok_iff body).mp ⟨update, hok⟩) hholds
    · exact iff_of_true (strict_orders body) (hother (by decide))
    · exact iff_of_true (strict_positions body) (hother (by decide))

/-- The bytes of a deal that has a ticket. -/
def ticketBytes (ticket : Nat) : Bytes := LittleEndian.encode 8 ticket ++ List.replicate 664 0

/-- An added position with one related deal and two related positions. -/
def positionsUpdate : Bytes :=
  [33] ++ LittleEndian.encode 4 1 ++ List.replicate 152 0 ++ ticketBytes 1 ++ ticketBytes 2 ++
    List.replicate 256 0 ++ LittleEndian.encode 4 1 ++ ticketBytes 3 ++
    LittleEndian.encode 4 2 ++ ticketBytes 4 ++ ticketBytes 5

/-- The tickets of the position changes, with those of their arrays. -/
def ticketsOf : Update → List (List Nat)
  | .positions changes => changes.map fun change =>
    (change.deal :: change.position :: (change.relatedDeals ++ change.relatedPositions)).map
      Deal.ticket
  | _ => []

/-- Every record is read, and nothing may stand behind them. -/
theorem decodeUpdate_strict_iff_positions :
    ∃ update, decodeUpdate positionsUpdate = .ok update ∧ ticketsOf update = [[1, 2, 3, 4, 5]] ∧
      Spells positionsUpdate update ∧
      ∀ more, more ≠ [] → ∀ longer, decodeUpdate (positionsUpdate ++ more) ≠ .ok longer := by
  have hstrict : Strict positionsUpdate := by
    refine (decodeUpdate_strict_iff ?_).mpr ?_
    · decide +kernel
    · decide +kernel
  have htickets :
      (decodeUpdate positionsUpdate).toOption.map ticketsOf = some [[1, 2, 3, 4, 5]] := by
    decide +kernel
  rcases hok : decodeUpdate positionsUpdate with e | update
  · rw [hok] at htickets
    cases htickets
  · rw [hok] at htickets
    obtain ⟨hspells, hlonger, -⟩ := hstrict update hok
    exact ⟨update, rfl, Option.some.inj htickets, hspells, hlonger⟩

/-- An update with one account record. -/
def accountUpdate : Bytes := [19, 1, 0, 0, 0] ++ List.replicate 3212 0

/-- With a byte behind its record the update is accepted as well. -/
theorem accountUpdate_overlong :
    (∃ update, decodeUpdate accountUpdate = .ok update) ∧
      (∃ update, decodeUpdate (accountUpdate ++ [255]) = .ok update) ∧
      ¬Strict (accountUpdate ++ [255]) := by
  have hholds : HoldsAccounts accountUpdate := by decide +kernel
  obtain ⟨update, hok⟩ := (decodeUpdate_account_ok_iff accountUpdate.tail).mpr hholds
  obtain ⟨longer, hlonger⟩ :=
    (decodeUpdate_account_ok_iff (accountUpdate.tail ++ [255])).mpr hholds.append
  refine ⟨⟨update, hok⟩, ⟨longer, hlonger⟩, fun hstrict => ?_⟩
  exact (hstrict longer hlonger).2.2 accountUpdate [255] rfl (List.cons_ne_nil _ _) update hok

end Mt5Open.Native

import Mathlib.Data.List.TakeWhile
import Mt5Open.Lib.Layout
import Mt5Open.Webterm.Login

/-!
# What a server is told to do

An operation is a record of 248 bytes.  A server takes it apart at the sizes of its fields,
and the action of the operation says which of the fields matter: `readInstruction`.

`Meant` is what the commands of a session ask for.  A close names the position of the book
that it closes and deals on the other side of it.  `instruction_meant` carries a command from
`Session::send` over the cipher to the server.

A text of the book comes back as it was, since what is read from a field of 64 bytes fits
into one: `fitsSymbol_fromUtf16Le`.
-/

namespace Mt5Open.Webterm.Operations

open Lib Trade
open Native (utf16Units fromUtf16Lossy utf16Chunks)
open Login (Inverts openCommand sealCommand sealCommand_of_length openCommand_packWire
  drop_buildCommand)
open Rates (FitsSymbol fromUtf16Le_utf16Le)

/-! ## Texts of the book -/

theorem toNat_ofNat {n : Nat} (h : n.isValidChar) : (Char.ofNat n).toNat = n := by
  rw [Char.ofNat, dif_pos h]
  rfl

theorem length_utf16Units_ofNat {unit : Nat} (h : unit < 0x10000) :
    (utf16Units (Char.ofNat unit)).length = 1 := by
  have hsmall : (Char.ofNat unit).toNat < 0x10000 := by
    by_cases hvalid : unit.isValidChar
    · rw [toNat_ofNat hvalid]
      exact h
    · rw [Char.ofNat, dif_neg hvalid]
      decide
  rw [utf16Units, if_pos hsmall]
  rfl

theorem length_utf16Units_le (c : Char) : (utf16Units c).length ≤ 2 := by
  unfold utf16Units
  split
  · exact Nat.le_succ 1
  · exact Nat.le_refl 2

/-- Decoding makes no text longer, replacements included. -/
theorem length_fromUtf16Lossy_le {units : List Nat} (h : ∀ unit ∈ units, unit < 0x10000) :
    ((fromUtf16Lossy units).flatMap utf16Units).length ≤ units.length := by
  have hreplaced : (utf16Units '\uFFFD').length = 1 := by decide
  induction units using Native.fromUtf16Lossy.induct with
  | case1 => exact Nat.le_refl 0
  | case2 unit hsurrogate =>
    rw [fromUtf16Lossy, if_pos hsurrogate, List.flatMap_singleton, hreplaced]
    exact Nat.le_refl 1
  | case3 unit hplain =>
    rw [fromUtf16Lossy, if_neg hplain, List.flatMap_singleton,
      length_utf16Units_ofNat (h unit (.head _))]
    exact Nat.le_refl 1
  | case4 unit next rest hhigh hlow ih =>
    have hpair := length_utf16Units_le
      (Char.ofNat (0x10000 + (unit - 0xD800) * 0x400 + (next - 0xDC00)))
    have hrest := ih fun u hu => h u (.tail _ (.tail _ hu))
    rw [fromUtf16Lossy, if_pos hhigh, if_pos hlow, List.flatMap_cons, List.length_append,
      List.length_cons, List.length_cons]
    omega
  | case5 unit next rest hhigh hlow ih =>
    have hrest := ih fun u hu => h u (.tail _ hu)
    rw [fromUtf16Lossy, if_pos hhigh, if_neg hlow, List.flatMap_cons, List.length_append,
      hreplaced, List.length_cons]
    omega
  | case6 unit next rest hhigh hlow ih =>
    have hrest := ih fun u hu => h u (.tail _ hu)
    rw [fromUtf16Lossy, if_neg hhigh, if_pos hlow, List.flatMap_cons, List.length_append,
      hreplaced, List.length_cons]
    omega
  | case7 unit next rest hhigh hlow ih =>
    have hrest := ih fun u hu => h u (.tail _ hu)
    rw [fromUtf16Lossy, if_neg hhigh, if_neg hlow, List.flatMap_cons, List.length_append,
      length_utf16Units_ofNat (h unit (.head _)), List.length_cons]
    omega

theorem ofNat_ne_nul {n : Nat} (hpos : 0 < n) (hvalid : n.isValidChar) :
    '\x00' ≠ Char.ofNat n := by
  intro h
  have hn : 0 = (Char.ofNat n).toNat := congrArg Char.toNat h
  rw [toNat_ofNat hvalid] at hn
  omega

/-- No NUL comes out of units other than zero. -/
theorem nul_not_mem_fromUtf16Lossy {units : List Nat}
    (h : ∀ unit ∈ units, 0 < unit ∧ unit < 0x10000) : '\x00' ∉ fromUtf16Lossy units := by
  have hreplaced : '\x00' ≠ '\uFFFD' := by decide
  induction units using Native.fromUtf16Lossy.induct with
  | case1 => exact List.not_mem_nil
  | case2 unit hsurrogate =>
    rw [fromUtf16Lossy, if_pos hsurrogate]
    decide
  | case3 unit hplain =>
    have hunit := h unit (.head _)
    rw [fromUtf16Lossy, if_neg hplain, List.mem_singleton]
    exact ofNat_ne_nul hunit.1 (by unfold Nat.isValidChar; omega)
  | case4 unit next rest hhigh hlow ih =>
    rw [fromUtf16Lossy, if_pos hhigh, if_pos hlow, List.mem_cons, not_or]
    exact ⟨ofNat_ne_nul (by omega) (by unfold Nat.isValidChar; omega),
      ih fun u hu => h u (.tail _ (.tail _ hu))⟩
  | case5 unit next rest hhigh hlow ih =>
    rw [fromUtf16Lossy, if_pos hhigh, if_neg hlow, List.mem_cons, not_or]
    exact ⟨hreplaced, ih fun u hu => h u (.tail _ hu)⟩
  | case6 unit next rest hhigh hlow ih =>
    rw [fromUtf16Lossy, if_neg hhigh, if_pos hlow, List.mem_cons, not_or]
    exact ⟨hreplaced, ih fun u hu => h u (.tail _ hu)⟩
  | case7 unit next rest hhigh hlow ih =>
    have hunit := h unit (.head _)
    rw [fromUtf16Lossy, if_neg hhigh, if_neg hlow, List.mem_cons, not_or]
    exact ⟨ofNat_ne_nul hunit.1 (by unfold Nat.isValidChar; omega),
      ih fun u hu => h u (.tail _ hu)⟩

theorem utf16Chunks_spec (bytes : Bytes) :
    2 * (utf16Chunks bytes).length ≤ bytes.length ∧
      ∀ unit ∈ utf16Chunks bytes, unit < 0x10000 := by
  induction bytes using Native.utf16Chunks.induct with
  | case1 low high rest ih =>
    rw [utf16Chunks, List.length_cons, List.length_cons, List.length_cons, List.forall_mem_cons]
    have hunit : LittleEndian.decode [low, high] < 256 ^ 2 := LittleEndian.decode_lt [low, high]
    exact ⟨by omega, by omega, ih.2⟩
  | case2 bytes hshort =>
    rw [utf16Chunks]
    · exact ⟨Nat.zero_le _, List.forall_mem_nil _⟩
    · exact hshort

/-- What is read from a field of 64 bytes fits into one. -/
theorem fitsSymbol_fromUtf16Le {bytes : Bytes} (h : bytes.length ≤ 64) :
    FitsSymbol (fromUtf16Le bytes) := by
  obtain ⟨hlength, hunits⟩ := utf16Chunks_spec bytes
  have hmem : ∀ unit ∈ (utf16Chunks bytes).takeWhile (· ≠ 0),
      0 < unit ∧ unit < 0x10000 := by
    intro unit hunit
    have hne := List.mem_takeWhile_imp hunit
    exact ⟨Nat.pos_of_ne_zero (of_decide_eq_true hne),
      hunits unit ((List.takeWhile_prefix _).subset hunit)⟩
  have hwhole : ((utf16Chunks bytes).takeWhile (· ≠ 0)).length ≤ (utf16Chunks bytes).length :=
    (List.takeWhile_prefix _).length_le
  have hdecoded := length_fromUtf16Lossy_le fun unit hunit => (hmem unit hunit).2
  rw [FitsSymbol, fromUtf16Le, String.toList_ofList]
  exact ⟨nul_not_mem_fromUtf16Lossy hmem, by omega⟩

theorem length_slice_le (bytes : Bytes) (start size : Nat) :
    (slice bytes start size).length ≤ size := by
  rw [slice, List.length_take]
  exact Nat.min_le_left _ _

/-! ## Fields -/

/-- The sizes of the fields of an operation, with the zeros between them. -/
def opSizes : List Nat := [4, 4, 64, 8, 4, 8, 4, 4, 4, 4, 4, 8, 8, 8, 8, 4, 16, 64, 8, 12]

/-- The fields that a server reads. -/
structure Fields where
  actionId : Nat
  tradeAction : Nat
  symbol : String
  volume : Nat
  digits : Nat
  tradeOrder : Int
  tradeType : Nat
  typeFilling : Nat
  typeTime : Nat
  typeFlags : Nat
  price : F64
  priceTrigger : F64
  sl : F64
  tp : F64
  priceDeviation : Nat
  comment : String
  tradePosition : Int

def readFields (bytes : Bytes) : Option Fields :=
  if bytes.length ≠ opSizes.sum then none
  else
    match Layout.cut opSizes bytes with
    | [actionId, tradeAction, symbol, volume, digits, tradeOrder, tradeType, typeFilling, typeTime,
        typeFlags, _, price, priceTrigger, sl, tp, priceDeviation, _, comment, tradePosition, _] =>
      some
        { actionId := LittleEndian.decode actionId
          tradeAction := LittleEndian.decode tradeAction
          symbol := fromUtf16Le symbol
          volume := LittleEndian.decode volume
          digits := LittleEndian.decode digits
          tradeOrder := LittleEndian.decodeInt tradeOrder
          tradeType := LittleEndian.decode tradeType
          typeFilling := LittleEndian.decode typeFilling
          typeTime := LittleEndian.decode typeTime
          typeFlags := LittleEndian.decode typeFlags
          price := F64.fromLe price
          priceTrigger := F64.fromLe priceTrigger
          sl := F64.fromLe sl
          tp := F64.fromLe tp
          priceDeviation := LittleEndian.decode priceDeviation
          comment := fromUtf16Le comment
          tradePosition := LittleEndian.decodeInt tradePosition }
    | _ => none

/-- A number of the type `u32`. -/
def IsU32 (n : Nat) : Prop := n < 256 ^ 4

/-- A ticket, of the type `i64`. -/
def IsTicket (n : Int) : Prop := -(256 ^ 8 : Nat) ≤ 2 * n ∧ 2 * n < (256 ^ 8 : Nat)

/-- The bits of a double. -/
def IsDouble (x : F64) : Prop := x.bits < 256 ^ 8

/-- The arguments have the types that `pack_op` gives them, and the texts fit their fields. -/
structure Packable (op : Operation) : Prop where
  actionId : IsU32 op.actionId
  tradeAction : IsU32 op.tradeAction
  symbol : FitsSymbol op.symbol
  digits : IsU32 op.digits
  tradeOrder : IsTicket op.tradeOrder
  tradeType : IsU32 op.tradeType
  typeFilling : IsU32 op.typeFilling
  price : IsDouble op.price
  priceTrigger : IsDouble op.priceTrigger
  sl : IsDouble op.sl
  tp : IsDouble op.tp
  priceDeviation : IsU32 op.priceDeviation
  comment : FitsSymbol op.comment
  tradePosition : IsTicket op.tradePosition

/-- The operation as a server reads it. -/
def fieldsOf (op : Operation) : Fields where
  actionId := op.actionId
  tradeAction := op.tradeAction
  symbol := op.symbol
  volume := unitsOf op.volumeLots
  digits := op.digits
  tradeOrder := op.tradeOrder
  tradeType := op.tradeType
  typeFilling := op.typeFilling
  typeTime := TIME_GTC
  typeFlags := 2
  price := op.price
  priceTrigger := op.priceTrigger
  sl := op.sl
  tp := op.tp
  priceDeviation := op.priceDeviation
  comment := op.comment
  tradePosition := op.tradePosition

theorem sizes_packOpChunks (op : Operation) : (packOpChunks op).map List.length = opSizes := by
  simp [packOpChunks, length_utf16Le, LittleEndian.length_encode, LittleEndian.length_encodeInt,
    opSizes]

theorem unitsOf_lt (lots : ℚ) : unitsOf lots < 256 ^ 8 := by
  have hle : unitsOf lots ≤ 2 ^ 64 - 1 := Nat.min_le_right _ _
  omega

theorem decode_encode_u32 {n : Nat} (h : IsU32 n) :
    LittleEndian.decode (LittleEndian.encode 4 n) = n := LittleEndian.decode_encode_of_lt h

theorem decodeInt_encodeInt_ticket {n : Int} (h : IsTicket n) :
    LittleEndian.decodeInt (LittleEndian.encodeInt 8 n) = n :=
  LittleEndian.decodeInt_encodeInt h.1 h.2

theorem fromLe_encode {x : F64} (h : IsDouble x) :
    F64.fromLe (LittleEndian.encode 8 x.bits) = x :=
  congrArg F64.mk (LittleEndian.decode_encode_of_lt h)

theorem fromUtf16Le_field {s : String} (h : FitsSymbol s) : fromUtf16Le (utf16Le s 64) = s :=
  fromUtf16Le_utf16Le h.1 h.2

/-- A server reads every field that was packed. -/
theorem readFields_packOp {op : Operation} (h : Packable op) :
    readFields (packOp op) = some (fieldsOf op) := by
  have hlength : (packOp op).length = opSizes.sum := by
    rw [packOp, List.length_flatten, sizes_packOpChunks]
  rw [readFields, if_neg (not_not_intro hlength), packOp,
    Layout.cut_flatten (sizes_packOpChunks op)]
  simp only [packOpChunks, fieldsOf, decode_encode_u32 h.actionId, decode_encode_u32 h.tradeAction,
    fromUtf16Le_field h.symbol, LittleEndian.decode_encode_of_lt (unitsOf_lt op.volumeLots),
    decode_encode_u32 h.digits, decodeInt_encodeInt_ticket h.tradeOrder,
    decode_encode_u32 h.tradeType, decode_encode_u32 h.typeFilling, fromLe_encode h.price,
    fromLe_encode h.priceTrigger, fromLe_encode h.sl, fromLe_encode h.tp,
    decode_encode_u32 h.priceDeviation, fromUtf16Le_field h.comment,
    decodeInt_encodeInt_ticket h.tradePosition]
  rfl

/-! ## Instructions -/

/-- What an operation does, and to what. -/
inductive Verb
  | deal (side : Side)
  | place (kind : OrderKind)
  | close (position : Int) (side : Side)
  | protect (position : Int)
  | change (order : Int)
  | cancel (order : Int)
  deriving DecidableEq

/-- What a server is told to do. -/
structure Instruction where
  verb : Verb
  symbol : String
  units : Nat
  digits : Nat
  typeFilling : Nat
  price : F64
  priceTrigger : F64
  sl : F64
  tp : F64
  priceDeviation : Nat
  comment : String
  deriving DecidableEq

def sideOf (code : Nat) : Option Side :=
  if code = TYPE_BUY then some .buy else if code = TYPE_SELL then some .sell else none

def kindOf (code : Nat) : Option OrderKind :=
  [.buyLimit, .sellLimit, .buyStop, .sellStop, .buyStopLimit, .sellStopLimit].find? fun kind =>
    OrderKind.code kind = code

/-- A deal that names a position closes it. -/
def verbOf (f : Fields) : Option Verb :=
  if f.tradeAction = TRADE_MARKET then
    (sideOf f.tradeType).map fun side =>
      if f.tradePosition = 0 then .deal side else .close f.tradePosition side
  else if f.tradeAction = TRADE_PENDING then (kindOf f.tradeType).map .place
  else if f.tradeAction = TRADE_MODIFY then some (.protect f.tradePosition)
  else if f.tradeAction = TRADE_MODIFY_ORDER then some (.change f.tradeOrder)
  else if f.tradeAction = TRADE_CANCEL then some (.cancel f.tradeOrder)
  else none

def instructionOf (f : Fields) (verb : Verb) : Instruction :=
  { f with verb, units := f.volume }

def readInstruction (bytes : Bytes) : Option Instruction := do
  let f ← readFields bytes
  let verb ← verbOf f
  return instructionOf f verb

theorem readInstruction_packOp {op : Operation} (h : Packable op) {verb : Verb}
    (hverb : verbOf (fieldsOf op) = some verb) :
    readInstruction (packOp op) = some (instructionOf (fieldsOf op) verb) := by
  rw [readInstruction, readFields_packOp h, Option.bind_eq_bind, Option.bind_some, hverb]
  rfl

/-! ## What a command means -/

/-- The position that the book lists under a ticket. -/
def HoldsPosition (answers : Answers) (ticket : Int) (p : Position) : Prop :=
  ∃ body, answers.book = .ok body ∧ (parsePositions body).find? (·.ticket == ticket) = some p

/-- The order that the book lists under a ticket. -/
def HoldsOrder (answers : Answers) (ticket : Int) (o : Order) : Prop :=
  ∃ body, answers.book = .ok body ∧ (parseOrders body).find? (·.ticket == ticket) = some o

/-- The price of a deal on this side. -/
def dealPrice (answers : Answers) (symbol : String) (side : Side) (unquoted : F64) : F64 :=
  ((answers.quote symbol).map fun quote => if side = .buy then quote.ask else quote.bid).getD
    unquoted

/-- The side of a deal that closes the position. -/
def against (p : Position) : Side := if p.side = 0 then .sell else .buy

def digitsOf (answers : Answers) (symbol : String) : Nat := (answers.digits symbol).getD 2

/-- What a command asks for, with this book and these quotes. -/
inductive Meant (answers : Answers) : Command → Instruction → Prop
  | market (symbol : String) (side : Side) (volume : ℚ) (sl tp : F64) (comment : String) :
    Meant answers (.market symbol side volume sl tp comment)
      { verb := .deal side, symbol, units := unitsOf volume, digits := digitsOf answers symbol
        typeFilling := FILL_FOK, price := dealPrice answers symbol side .zero, priceTrigger := .zero
        sl, tp, priceDeviation := 30, comment := shortComment comment }
  | pending (symbol : String) (kind : OrderKind) (volume : ℚ) (price sl tp stopLimit : F64)
      (comment : String) :
    Meant answers (.pending symbol kind volume price sl tp stopLimit comment)
      { verb := .place kind, symbol, units := unitsOf volume, digits := digitsOf answers symbol
        typeFilling := FILL_RETURN, price, priceTrigger := stopLimit, sl, tp, priceDeviation := 30
        comment := shortComment comment }
  | closePosition {ticket : Int} {p : Position} (volume : Option ℚ)
      (hbook : HoldsPosition answers ticket p) :
    Meant answers (.closePosition ticket volume)
      { verb := .close ticket (against p), symbol := p.symbol
        units := unitsOf (volume.getD p.volume), digits := digitsOf answers p.symbol
        typeFilling := FILL_FOK
        price := dealPrice answers p.symbol (against p) p.price, priceTrigger := .zero, sl := .zero
        tp := .zero, priceDeviation := 30, comment := "" }
  | cancelOrder {ticket : Int} {o : Order} (hbook : HoldsOrder answers ticket o) :
    Meant answers (.cancelOrder ticket)
      { verb := .cancel ticket, symbol := o.symbol, units := unitsOf o.volume
        digits := digitsOf answers o.symbol, typeFilling := FILL_FOK, price := o.price
        priceTrigger := .zero, sl := .zero, tp := .zero, priceDeviation := 30, comment := "" }
  | modifyPosition {ticket : Int} {p : Position} (sl tp : F64)
      (hbook : HoldsPosition answers ticket p) :
    Meant answers (.modifyPosition ticket sl tp)
      { verb := .protect ticket, symbol := p.symbol, units := unitsOf p.volume
        digits := digitsOf answers p.symbol, typeFilling := FILL_RETURN, price := .zero
        priceTrigger := .zero, sl, tp, priceDeviation := 30, comment := "" }
  | modifyOrder {ticket : Int} {o : Order} (price sl tp : F64)
      (hbook : HoldsOrder answers ticket o) :
    Meant answers (.modifyOrder ticket price sl tp)
      { verb := .change ticket, symbol := o.symbol, units := unitsOf o.volume
        digits := digitsOf answers o.symbol, typeFilling := FILL_RETURN, price
        priceTrigger := .zero, sl, tp, priceDeviation := 30, comment := "" }

/-- The command opens something, or the book lists what it is about. -/
def Listed (answers : Answers) : Command → Prop
  | .market .. | .pending .. => True
  | .closePosition ticket _ | .modifyPosition ticket _ _ => ∃ p, HoldsPosition answers ticket p
  | .cancelOrder ticket | .modifyOrder ticket _ _ _ => ∃ o, HoldsOrder answers ticket o

/-- The numbers of a command have their types, its texts fit their fields, and no position that it
closes has the ticket 0. -/
def Fits : Command → Prop
  | .market symbol _ _ sl tp comment =>
    FitsSymbol symbol ∧ FitsSymbol (shortComment comment) ∧ IsDouble sl ∧ IsDouble tp
  | .pending symbol _ _ price sl tp stopLimit comment =>
    FitsSymbol symbol ∧ FitsSymbol (shortComment comment) ∧ IsDouble price ∧ IsDouble sl ∧
      IsDouble tp ∧ IsDouble stopLimit
  | .closePosition ticket _ => ticket ≠ 0
  | .cancelOrder _ => True
  | .modifyPosition _ sl tp => IsDouble sl ∧ IsDouble tp
  | .modifyOrder _ price sl tp => IsDouble price ∧ IsDouble sl ∧ IsDouble tp

/-- The numbers of the answers have their types. -/
structure Typed (answers : Answers) : Prop where
  actionId : IsU32 answers.actionId
  digits : ∀ symbol digits, answers.digits symbol = some digits → IsU32 digits
  quote : ∀ symbol quote, answers.quote symbol = some quote →
    IsDouble quote.bid ∧ IsDouble quote.ask

theorem exists_bind_ok_iff {ε α β : Type} {x : Except ε α} {f : α → β} :
    (∃ b, (x >>= fun a => .ok (f a)) = .ok b) ↔ ∃ a, x = .ok a := by
  constructor
  · intro h
    obtain ⟨b, hb⟩ := h
    obtain ⟨a, ha, -⟩ := except_bind_eq_ok.mp hb
    exact ⟨a, ha⟩
  · intro h
    obtain ⟨a, ha⟩ := h
    exact ⟨f a, except_bind_eq_ok.mpr ⟨a, ha, rfl⟩⟩

theorem findPosition_eq_ok {answers : Answers} {ticket : Int} {p : Position} :
    findPosition answers ticket = .ok p ↔ HoldsPosition answers ticket p := by
  rw [findPosition, HoldsPosition]
  cases answers.book with
  | error e => simp [orOther, Except.mapError, bind, Except.bind]
  | ok body =>
    simp only [orOther, Except.mapError, bind, Except.bind, Except.ok.injEq, exists_eq_left']
    cases (parsePositions body).find? (·.ticket == ticket) with
    | none => simp [throw, throwThe, MonadExceptOf.throw]
    | some found => simp [pure, Except.pure]

theorem findOrder_eq_ok {answers : Answers} {ticket : Int} {o : Order} :
    findOrder answers ticket = .ok o ↔ HoldsOrder answers ticket o := by
  rw [findOrder, HoldsOrder]
  cases answers.book with
  | error e => simp [orOther, Except.mapError, bind, Except.bind]
  | ok body =>
    simp only [orOther, Except.mapError, bind, Except.bind, Except.ok.injEq, exists_eq_left']
    cases (parseOrders body).find? (·.ticket == ticket) with
    | none => simp [throw, throwThe, MonadExceptOf.throw]
    | some found => simp [pure, Except.pure]

/-! ## Numbers of the book -/

theorem isU32_u32At (bytes : Bytes) : IsU32 (u32At bytes) := by
  unfold u32At
  split
  · exact Nat.pos_of_ne_zero (by decide)
  · rename_i h
    have hlt := LittleEndian.decode_lt (bytes.take 4)
    rwa [List.length_take, Nat.min_eq_left (Nat.le_of_not_lt h)] at hlt

theorem isTicket_i64At (bytes : Bytes) : IsTicket (i64At bytes) := by
  unfold i64At
  split
  · exact ⟨by omega, by omega⟩
  · rename_i h
    have hle := LittleEndian.le_decodeInt (bytes.take 8)
    have hlt := LittleEndian.decodeInt_lt (bytes.take 8)
    rw [List.length_take, Nat.min_eq_left (Nat.le_of_not_lt h)] at hle hlt
    exact ⟨hle, hlt⟩

theorem isDouble_zero : IsDouble .zero := by
  show (0 : Nat) < 256 ^ 8
  decide

theorem isDouble_f64At (bytes : Bytes) : IsDouble (f64At bytes) := by
  unfold f64At
  split
  · exact isDouble_zero
  · rename_i h
    have hlt := LittleEndian.decode_lt (bytes.take 8)
    rwa [List.length_take, Nat.min_eq_left (Nat.le_of_not_lt h)] at hlt

/-- A position as it is read from a book. -/
structure ReadPosition (ticket : Int) (p : Position) : Prop where
  found : p.ticket = ticket
  isTicket : IsTicket ticket
  symbol : FitsSymbol p.symbol
  side : IsU32 p.side
  price : IsDouble p.price

structure ReadOrder (ticket : Int) (o : Order) : Prop where
  found : o.ticket = ticket
  isTicket : IsTicket ticket
  symbol : FitsSymbol o.symbol
  kind : IsU32 o.kind
  price : IsDouble o.price

theorem readPosition {answers : Answers} {ticket : Int} {p : Position}
    (h : HoldsPosition answers ticket p) : ReadPosition ticket p := by
  obtain ⟨body, -, hfind⟩ := h
  have hticket : p.ticket = ticket := by simpa using List.find?_some hfind
  obtain ⟨record, -, rfl⟩ := List.mem_map.mp (List.mem_of_find?_eq_some hfind)
  exact ⟨hticket, hticket ▸ isTicket_i64At record,
    fitsSymbol_fromUtf16Le (length_slice_le _ _ _), isU32_u32At _, isDouble_f64At _⟩

theorem readOrder {answers : Answers} {ticket : Int} {o : Order}
    (h : HoldsOrder answers ticket o) : ReadOrder ticket o := by
  obtain ⟨body, -, hfind⟩ := h
  have hticket : o.ticket = ticket := by simpa using List.find?_some hfind
  obtain ⟨record, -, rfl⟩ := List.mem_map.mp (List.mem_of_find?_eq_some hfind)
  exact ⟨hticket, hticket ▸ isTicket_i64At record,
    fitsSymbol_fromUtf16Le (length_slice_le _ _ _), isU32_u32At _, isDouble_f64At _⟩

/-! ## What is packed -/

theorem isU32_of_le (n : Nat) (h : n ≤ 255) : IsU32 n := Nat.lt_of_le_of_lt h (by decide)

theorem isTicket_zero : IsTicket 0 := ⟨by decide, by decide⟩

theorem fitsSymbol_empty : FitsSymbol "" := ⟨by decide, by decide⟩

theorem isU32_digitsOf {answers : Answers} (htyped : Typed answers) (symbol : String) :
    IsU32 (digitsOf answers symbol) := by
  rw [digitsOf]
  cases hdigits : answers.digits symbol with
  | none => exact isU32_of_le 2 (by decide)
  | some digits => exact htyped.digits symbol digits hdigits

theorem isDouble_dealPrice {answers : Answers} (htyped : Typed answers) (symbol : String)
    (side : Side) {unquoted : F64} (h : IsDouble unquoted) :
    IsDouble (dealPrice answers symbol side unquoted) := by
  rw [dealPrice]
  cases hquote : answers.quote symbol with
  | none => exact h
  | some quote =>
    have hsides := htyped.quote symbol quote hquote
    show IsDouble (if side = .buy then quote.ask else quote.bid)
    split
    · exact hsides.2
    · exact hsides.1

def sideCode (side : Side) : Nat := if side = .buy then TYPE_BUY else TYPE_SELL

theorem isU32_sideCode (side : Side) : IsU32 (sideCode side) := by
  cases side with
  | buy => exact isU32_of_le TYPE_BUY (by decide)
  | sell => exact isU32_of_le TYPE_SELL (by decide)

theorem sideOf_sideCode (side : Side) : sideOf (sideCode side) = some side := by
  cases side with
  | buy => rfl
  | sell => rfl

theorem isU32_code (kind : OrderKind) : IsU32 kind.code :=
  isU32_of_le kind.code (by cases kind <;> decide)

theorem kindOf_code (kind : OrderKind) : kindOf kind.code = some kind := by
  cases kind with
  | buyLimit => rfl
  | sellLimit => rfl
  | buyStop => rfl
  | sellStop => rfl
  | buyStopLimit => rfl
  | sellStopLimit => rfl

theorem pack_market (answers : Answers) (symbol : String) (side : Side) (volume : ℚ) (sl tp : F64)
    (comment : String) :
    pack answers (.market symbol side volume sl tp comment) = .ok (packOp
      { symbol, actionId := answers.actionId, tradeAction := TRADE_MARKET, volumeLots := volume
        digits := digitsOf answers symbol, tradeType := sideCode side
        price := dealPrice answers symbol side .zero, sl, tp, tradeOrder := 0
        typeFilling := FILL_FOK, comment := shortComment comment, tradePosition := 0
        priceTrigger := .zero, priceDeviation := 30 }) := by
  rw [pack, dealPrice]
  cases answers.quote symbol with
  | none => rfl
  | some quote => rfl

theorem pack_closePosition {answers : Answers} {ticket : Int} {p : Position} (volume : Option ℚ)
    (h : HoldsPosition answers ticket p) :
    pack answers (.closePosition ticket volume) = .ok (packOp
      { symbol := p.symbol, actionId := answers.actionId, tradeAction := TRADE_MARKET
        volumeLots := volume.getD p.volume, digits := digitsOf answers p.symbol
        tradeType := sideCode (against p), price := dealPrice answers p.symbol (against p) p.price
        sl := .zero, tp := .zero, tradeOrder := 0, typeFilling := FILL_FOK, comment := ""
        tradePosition := ticket, priceTrigger := .zero, priceDeviation := 30 }) := by
  rw [pack, findPosition_eq_ok.mpr h, dealPrice, against]
  by_cases hside : p.side = 0
  · simp only [if_pos hside, bind, Except.bind]
    cases answers.quote p.symbol with
    | none => rfl
    | some quote => rfl
  · simp only [if_neg hside, bind, Except.bind]
    cases answers.quote p.symbol with
    | none => rfl
    | some quote => rfl

/-- A command is packed when the book lists what it is about. -/
theorem pack_isOk_iff {answers : Answers} {cmd : Command} :
    (∃ bytes, pack answers cmd = .ok bytes) ↔ Listed answers cmd := by
  cases cmd with
  | market symbol side volume sl tp comment => exact iff_of_true ⟨_, rfl⟩ trivial
  | pending symbol kind volume price sl tp stopLimit comment =>
    exact iff_of_true ⟨_, rfl⟩ trivial
  | closePosition ticket volume =>
    exact exists_bind_ok_iff.trans (exists_congr fun p => findPosition_eq_ok)
  | cancelOrder ticket =>
    exact exists_bind_ok_iff.trans (exists_congr fun o => findOrder_eq_ok)
  | modifyPosition ticket sl tp =>
    exact exists_bind_ok_iff.trans (exists_congr fun p => findPosition_eq_ok)
  | modifyOrder ticket price sl tp =>
    exact exists_bind_ok_iff.trans (exists_congr fun o => findOrder_eq_ok)

theorem pack_found {answers : Answers} {cmd : Command} {bytes : Bytes}
    (hpack : pack answers cmd = .ok bytes) : Listed answers cmd :=
  pack_isOk_iff.mp ⟨bytes, hpack⟩

theorem readInstruction_of_pack {op : Operation} {bytes : Bytes}
    (hpack : (.ok (packOp op) : Except Ticket.SessionError Bytes) = .ok bytes) (h : Packable op)
    {verb : Verb} (hverb : verbOf (fieldsOf op) = some verb) :
    readInstruction bytes = some (instructionOf (fieldsOf op) verb) :=
  Except.ok.inj hpack ▸ readInstruction_packOp h hverb

/-- A server that reads these bytes is told what the command means. -/
def Obeyed (answers : Answers) (cmd : Command) (bytes : Bytes) : Prop :=
  ∃ i, readInstruction bytes = some i ∧ Meant answers cmd i

section Commands

variable {answers : Answers} {bytes : Bytes}

theorem obeyed_market (htyped : Typed answers) {symbol : String} {side : Side} {volume : ℚ}
    {sl tp : F64} {comment : String}
    (hfits : Fits (.market symbol side volume sl tp comment))
    (hpack : pack answers (.market symbol side volume sl tp comment) = .ok bytes) :
    Obeyed answers (.market symbol side volume sl tp comment) bytes := by
  obtain ⟨hsymbol, hcomment, hsl, htp⟩ := hfits
  rw [pack_market] at hpack
  have hverb := sideOf_sideCode side
  refine ⟨_, readInstruction_of_pack hpack ?_ ?_, .market symbol side volume sl tp comment⟩
  · exact
    { actionId := htyped.actionId, tradeAction := isU32_of_le TRADE_MARKET (by decide)
      symbol := hsymbol, digits := isU32_digitsOf htyped symbol, tradeOrder := isTicket_zero
      tradeType := isU32_sideCode side, typeFilling := isU32_of_le FILL_FOK (by decide)
      price := isDouble_dealPrice htyped symbol side isDouble_zero
      priceTrigger := isDouble_zero, sl := hsl, tp := htp
      priceDeviation := isU32_of_le 30 (by decide), comment := hcomment
      tradePosition := isTicket_zero }
  · simp [verbOf, fieldsOf, hverb]

theorem obeyed_pending (htyped : Typed answers) {symbol : String} {kind : OrderKind} {volume : ℚ}
    {price sl tp stopLimit : F64} {comment : String}
    (hfits : Fits (.pending symbol kind volume price sl tp stopLimit comment))
    (hpack : pack answers (.pending symbol kind volume price sl tp stopLimit comment) = .ok bytes) :
    Obeyed answers (.pending symbol kind volume price sl tp stopLimit comment) bytes := by
  obtain ⟨hsymbol, hcomment, hprice, hsl, htp, hstop⟩ := hfits
  rw [pack] at hpack
  have hverb := kindOf_code kind
  refine ⟨_, readInstruction_of_pack hpack ?_ ?_,
    .pending symbol kind volume price sl tp stopLimit comment⟩
  · exact
    { actionId := htyped.actionId, tradeAction := isU32_of_le TRADE_PENDING (by decide)
      symbol := hsymbol, digits := isU32_digitsOf htyped symbol, tradeOrder := isTicket_zero
      tradeType := isU32_code kind, typeFilling := isU32_of_le FILL_RETURN (by decide)
      price := hprice, priceTrigger := hstop, sl := hsl, tp := htp
      priceDeviation := isU32_of_le 30 (by decide), comment := hcomment
      tradePosition := isTicket_zero }
  · simp [verbOf, fieldsOf, hverb, TRADE_PENDING, TRADE_MARKET]

theorem obeyed_closePosition (htyped : Typed answers) {ticket : Int} {volume : Option ℚ}
    (hfits : Fits (.closePosition ticket volume))
    (hpack : pack answers (.closePosition ticket volume) = .ok bytes) :
    Obeyed answers (.closePosition ticket volume) bytes := by
  have hticket : ticket ≠ 0 := hfits
  obtain ⟨p, hfind⟩ := pack_found hpack
  have hread := readPosition hfind
  have hverb := sideOf_sideCode (against p)
  rw [pack_closePosition volume hfind] at hpack
  refine ⟨_, readInstruction_of_pack hpack ?_ ?_, .closePosition volume hfind⟩
  · exact
    { actionId := htyped.actionId, tradeAction := isU32_of_le TRADE_MARKET (by decide)
      symbol := hread.symbol, digits := isU32_digitsOf htyped p.symbol
      tradeOrder := isTicket_zero, tradeType := isU32_sideCode _
      typeFilling := isU32_of_le FILL_FOK (by decide)
      price := isDouble_dealPrice htyped p.symbol _ hread.price, priceTrigger := isDouble_zero
      sl := isDouble_zero, tp := isDouble_zero, priceDeviation := isU32_of_le 30 (by decide)
      comment := fitsSymbol_empty, tradePosition := hread.isTicket }
  · simp [verbOf, fieldsOf, hverb, hticket]

theorem obeyed_cancelOrder (htyped : Typed answers) {ticket : Int}
    (hpack : pack answers (.cancelOrder ticket) = .ok bytes) :
    Obeyed answers (.cancelOrder ticket) bytes := by
  obtain ⟨o, hfind⟩ := pack_found hpack
  have hread := readOrder hfind
  rw [pack, findOrder_eq_ok.mpr hfind] at hpack
  refine ⟨_, readInstruction_of_pack hpack ?_ ?_, .cancelOrder hfind⟩
  · exact
    { actionId := htyped.actionId, tradeAction := isU32_of_le TRADE_CANCEL (by decide)
      symbol := hread.symbol, digits := isU32_digitsOf htyped o.symbol
      tradeOrder := hread.isTicket, tradeType := hread.kind
      typeFilling := isU32_of_le FILL_FOK (by decide), price := hread.price
      priceTrigger := isDouble_zero, sl := isDouble_zero, tp := isDouble_zero
      priceDeviation := isU32_of_le 30 (by decide), comment := fitsSymbol_empty
      tradePosition := isTicket_zero }
  · rfl

theorem obeyed_modifyPosition (htyped : Typed answers) {ticket : Int} {sl tp : F64}
    (hfits : Fits (.modifyPosition ticket sl tp))
    (hpack : pack answers (.modifyPosition ticket sl tp) = .ok bytes) :
    Obeyed answers (.modifyPosition ticket sl tp) bytes := by
  obtain ⟨hsl, htp⟩ := hfits
  obtain ⟨p, hfind⟩ := pack_found hpack
  have hread := readPosition hfind
  rw [pack, findPosition_eq_ok.mpr hfind] at hpack
  refine ⟨_, readInstruction_of_pack hpack ?_ ?_, .modifyPosition sl tp hfind⟩
  · exact
    { actionId := htyped.actionId, tradeAction := isU32_of_le TRADE_MODIFY (by decide)
      symbol := hread.symbol, digits := isU32_digitsOf htyped p.symbol
      tradeOrder := hread.isTicket, tradeType := hread.side
      typeFilling := isU32_of_le FILL_RETURN (by decide), price := isDouble_zero
      priceTrigger := isDouble_zero, sl := hsl, tp := htp
      priceDeviation := isU32_of_le 30 (by decide), comment := fitsSymbol_empty
      tradePosition := hread.isTicket }
  · rfl

theorem obeyed_modifyOrder (htyped : Typed answers) {ticket : Int} {price sl tp : F64}
    (hfits : Fits (.modifyOrder ticket price sl tp))
    (hpack : pack answers (.modifyOrder ticket price sl tp) = .ok bytes) :
    Obeyed answers (.modifyOrder ticket price sl tp) bytes := by
  obtain ⟨hprice, hsl, htp⟩ := hfits
  obtain ⟨o, hfind⟩ := pack_found hpack
  have hread := readOrder hfind
  rw [pack, findOrder_eq_ok.mpr hfind] at hpack
  refine ⟨_, readInstruction_of_pack hpack ?_ ?_, .modifyOrder price sl tp hfind⟩
  · exact
    { actionId := htyped.actionId, tradeAction := isU32_of_le TRADE_MODIFY_ORDER (by decide)
      symbol := hread.symbol, digits := isU32_digitsOf htyped o.symbol
      tradeOrder := hread.isTicket, tradeType := hread.kind
      typeFilling := isU32_of_le FILL_RETURN (by decide), price := hprice
      priceTrigger := isDouble_zero, sl := hsl, tp := htp
      priceDeviation := isU32_of_le 30 (by decide), comment := fitsSymbol_empty
      tradePosition := isTicket_zero }
  · rfl

/-- A server does what a command means. -/
theorem obeyed_pack (htyped : Typed answers) {cmd : Command} (hfits : Fits cmd)
    (hpack : pack answers cmd = .ok bytes) :
    Obeyed answers cmd bytes := by
  cases cmd with
  | market symbol side volume sl tp comment => exact obeyed_market htyped hfits hpack
  | pending symbol kind volume price sl tp stopLimit comment =>
    exact obeyed_pending htyped hfits hpack
  | closePosition ticket volume => exact obeyed_closePosition htyped hfits hpack
  | cancelOrder ticket => exact obeyed_cancelOrder htyped hpack
  | modifyPosition ticket sl tp => exact obeyed_modifyPosition htyped hfits hpack
  | modifyOrder ticket price sl tp => exact obeyed_modifyOrder htyped hfits hpack

end Commands

/-! ## On the wire -/

section Wire

variable {encrypt : Bytes → Bytes → Bytes} {decrypt : Bytes → Bytes → Except String Bytes}

/-- What a server makes of an enciphered trade command. -/
def told (decrypt : Bytes → Bytes → Except String Bytes) (key raw : Bytes) :
    Option Instruction := do
  let command ← openCommand decrypt key raw
  if cmdIdOf command = CMD_TRADE then readInstruction (command.drop 4) else none

theorem told_packWire (h : Inverts encrypt decrypt) {key : Bytes} (hkey : key.length = 32)
    (random : UInt16) (op : Bytes) :
    told decrypt key (Login.packWire (encrypt key (buildCommand random CMD_TRADE op))) =
      readInstruction op := by
  rw [told, openCommand_packWire h hkey (four_le_length_buildCommand _ _ _), Option.bind_eq_bind,
    Option.bind_some, cmdIdOf_buildCommand, if_pos rfl, drop_buildCommand]

/-- A command goes out when it opens something or the book lists what it is about, and the server
that deciphers it is told what the command means. -/
theorem instruction_meant (h : Inverts encrypt decrypt) {key : Bytes} (hkey : key.length = 32)
    (random : UInt16) {answers : Answers} (htyped : Typed answers) {cmd : Command}
    (hfits : Fits cmd) :
    ((∃ op, pack answers cmd = .ok op) ↔ Listed answers cmd) ∧
      ∀ op, pack answers cmd = .ok op → ∃ raw i,
        sealCommand encrypt key random CMD_TRADE op = .ok raw ∧
          told decrypt key raw = some i ∧ Meant answers cmd i := by
  refine ⟨pack_isOk_iff, ?_⟩
  intro op hpack
  obtain ⟨i, hread, hmeant⟩ := obeyed_pack htyped hfits hpack
  refine ⟨_, i, sealCommand_of_length hkey random CMD_TRADE op, ?_, hmeant⟩
  rw [told_packWire h hkey, hread]

end Wire

/-- A book with a lot of EURUSD that was bought at 1, under ticket 7. -/
def sampleBook : Bytes :=
  LittleEndian.encode 4 1 ++ LittleEndian.encodeInt 8 7 ++ List.replicate 16 0 ++
    utf16Le "EURUSD" 64 ++ LittleEndian.encode 4 0 ++ LittleEndian.encode 8 Parse.one.bits ++
      List.replicate 24 0 ++ LittleEndian.encode 8 100000000 ++ List.replicate 212 0

/-- A connection with this book, and with a quote of 1 on both sides. -/
def sampleAnswers : Answers where
  book := .ok sampleBook
  quote _ := some ⟨Parse.one, Parse.one⟩
  digits _ := some 5
  actionId := 42

/-- The operation that closes the position. -/
def sampleClose : Operation where
  symbol := "EURUSD"
  actionId := 42
  tradeAction := TRADE_MARKET
  volumeLots := 1
  digits := 5
  tradeType := TYPE_SELL
  price := Parse.one
  sl := .zero
  tp := .zero
  tradeOrder := 0
  typeFilling := FILL_FOK
  comment := ""
  tradePosition := 7
  priceTrigger := .zero
  priceDeviation := 30

/-- The command under AES-256-CBC. -/
def sampleTable : List Login.Known :=
  [⟨Login.sampleServer.key, buildCommand 0x1234 CMD_TRADE (packOp sampleClose), Login.blocks [
    0x15d953ce3348d2be01ef1c8aa3f0a866, 0xb5672a956c4ebe71cc5ef980cad31ed7,
    0x55481f506c32cd74cef47a081e2c7240, 0x8e7192a58a920751edc06d855d48e86f,
    0x079c37c92f291eab4f7e5a325d174c1a, 0x2f5a25d57fe4fdc0a02b6ce0edaf875b,
    0xb9d10618b8852dfe0ad46c251ed9d2c9, 0x462ee88552e7ce81db04e8cbf87b3ced,
    0x3c419bd3d4ebf2381c83949de149d445, 0xcd3a88dbb3d7817d728a206f743236cb,
    0x09b7c168c27645d0e4dc972ba1fffcde, 0x2e8cdc1bc91876cd7d410a812c37a6f4,
    0x08b9470f645f313e6a8c62422acec3ea, 0x247ad20b476eadb19cf4b1feac8bbf09,
    0xb69849dca7918918c8089b163a8308e6, 0x75636cf60123707dc41cac5eec1a1f0e]⟩]

theorem typed_sampleAnswers : Typed sampleAnswers where
  actionId := isU32_of_le 42 (by decide)
  digits := by
    intro symbol digits hdigits
    rw [← Option.some.inj hdigits]
    exact isU32_of_le 5 (by decide)
  quote := by
    intro symbol quote hquote
    rw [← Option.some.inj hquote]
    have hone : IsDouble Parse.one := by
      show (0x3ff0000000000000 : Nat) < 256 ^ 8
      decide
    exact ⟨hone, hone⟩

theorem instruction_meant_sampleClose :
    ∃ raw i, sealCommand (Login.tableEncrypt sampleTable) Login.sampleServer.key 0x1234 CMD_TRADE
        (packOp sampleClose) = .ok raw ∧
      told (Login.tableDecrypt sampleTable) Login.sampleServer.key raw = some i ∧
        Meant sampleAnswers (.closePosition 7 none) i := by
  have hfits : Fits (.closePosition 7 none) := by
    show (7 : Int) ≠ 0
    decide
  have hpack : pack sampleAnswers (.closePosition 7 none) = .ok (packOp sampleClose) := by
    decide +kernel
  exact (instruction_meant (Login.inverts_table sampleTable (by decide))
    Login.sampleServer.key_length 0x1234 typed_sampleAnswers hfits).2 _ hpack

end Mt5Open.Webterm.Operations

import Mathlib.Data.List.Induction
import Mt5Open.Lib.Grammar
import Mt5Open.Native.Sync

/-!
# The grammar of the synchronization stream

The stream is a zero word and a sequence of sections.  A section is a tag and its
body, and the body of most tags is nested: counted records, each with counted
arrays of its own, some of them only when the collection has changed.

`parseSynchronizedState_iff` says that the parser accepts exactly the streams of
this grammar, and what it makes of the sections.  A count is checked against the
bytes that are left before its records are read; that check rejects nothing, for
every counted record takes at least one byte.
-/

namespace Mt5Open.Native

open Lib

namespace SyncGrammar

abbrev Format := Grammar UInt8

/-! ## Counts and collections -/

def record (size : Nat) : Format (Record size) := fun bytes r => bytes = r.bytes

def word : Format Int := fun bytes v => bytes.length = 4 ∧ v = LittleEndian.decodeInt bytes

/-- A word that is not negative. -/
def countWord : Format Nat := fun bytes n => word bytes n

/-- A counted array of fields that are not read. -/
def array (stride : Nat) : Format Unit := do
  let n ← countWord
  let _ ← record (n * stride)
  return ()

/-- A collection status: 0 before a collection, 1 for one that is unchanged. -/
def collection {α : Type} (changed : Format α) (unchanged : α) : Format α := fun bytes a =>
  (∃ status body, bytes = status ++ body ∧ word status 0 ∧ changed body a) ∨
    word bytes 1 ∧ a = unchanged

/-! ## The bodies -/

/-- The symbol of two records: the digits are in their range. -/
def symbolRecord (info : Record 1952) (group : Record 1228) : Format Symbol := fun bytes s =>
  let digits := info.i32 1424 (Nat.le_add_right _ 524)
  bytes = [] ∧ (0 ≤ digits ∧ digits ≤ 12) ∧
    Symbol.parse info.bytes group.bytes = .ok s

def symbol : Format Symbol := do
  let info ← record 1952
  let group ← record 1228
  let symbol ← symbolRecord info group
  let _ ← Grammar.items (do array 40; array 40) 7
  let _ ← record 80
  return symbol

def symbolBatch : Format (List Symbol) :=
  collection (do
    let n ← countWord
    let symbols ← Grammar.items symbol n
    array 4
    return symbols) []

def symbolFoundation : Format (AccountTerms × List Symbol) := do
  let base ← record 4228
  let terms ← Grammar.accepted (AccountTerms.parse base.bytes)
  array 1228
  let groups ← countWord
  let _ ← Grammar.items (do let _ ← record 908; array 160) groups
  let _ ← record 656
  let sessions ← countWord
  let _ ← Grammar.items (do let _ ← record 932; array 160) sessions
  let symbols ← symbolBatch
  collection (do array 392; return (terms, symbols)) (terms, symbols)

def address : Format String := do
  let r ← record 148
  return r.text 0 128 (Nat.le_add_right _ 20)

/-- The addresses that are not empty, each at its first occurrence. -/
def advertised (addresses : List String) : List String := (addresses.filter (· ≠ "")).eraseDups

def accessPoint : Format AccessPoint := do
  let r ← record 268
  let n ← countWord
  let addresses ← Grammar.items address n
  return { name := r.text 0 64 (Nat.le_add_right _ 204), addresses := advertised addresses }

def routing : Format (Int × List AccessPoint) := do
  let r ← record 532
  let n ← countWord
  let points ← Grammar.items accessPoint n
  return (r.i32 396 (Nat.le_add_right _ 132), points)

def auxiliary : Format Unit :=
  collection (do
    let n ← countWord
    let _ ← Grammar.items (do let _ ← record 100; array 128; array 128) n
    array 4) ()

def collection103 : Format Unit :=
  collection (do
    let n ← countWord
    let _ ← Grammar.items (do
      let _ ← record 1240
      array 1
      array 256
      array 256
      array 292
      array 292) n
    array 8
    let _ ← record 16
    return ()) ()

/-- A size, in a second word when the first one is zero. -/
def sizeWord : Format Nat := do
  let size ← countWord
  if size = 0 then countWord else return size

def collection120 : Format Unit := do
  let n ← countWord
  let _ ← Grammar.items (do
    let _ ← record 776
    let size ← sizeWord
    let _ ← record size
    array 528
    array 208
    array 112) n
  return ()

def blobs : Format Unit := do
  let n ← countWord
  let _ ← Grammar.items (do
    let _ ← record 20
    let size ← countWord
    let _ ← record 104
    let _ ← record size
    return ()) n
  return ()

def orders : Format (List Order) := do
  let _ ← word
  let n ← countWord
  Grammar.items (do let r ← record 636; Grammar.accepted (Order.parse r.bytes)) n

def positions : Format (List Deal) := do
  let _ ← word
  let n ← countWord
  Grammar.items (do let r ← record 672; Grammar.accepted (Deal.parse r.bytes)) n

/-! ## Sections and streams -/

/-- What a section brings. -/
inductive Section where
  | foundation (terms : AccountTerms) (symbols : List Symbol)
  | routing (timezone : Int) (points : List AccessPoint)
  | orders (orders : List Order)
  | positions (positions : List Deal)
  | account (account : AccountState)
  | other
  deriving DecidableEq, Repr

namespace Section

def foundation? : Section → Option (AccountTerms × List Symbol)
  | foundation terms symbols => some (terms, symbols)
  | _ => none

def routing? : Section → Option (Int × List AccessPoint)
  | routing timezone points => some (timezone, points)
  | _ => none

def account? : Section → Option AccountState
  | account a => some a
  | _ => none

def orderRecords : Section → List Order
  | orders records => records
  | _ => []

def positionRecords : Section → List Deal
  | positions records => records
  | _ => []

end Section

/-- The body behind a tag.  No other tag is known. -/
def body (tag : UInt8) : Format Section :=
  if tag = 7 then do let (terms, symbols) ← symbolFoundation; return .foundation terms symbols
  else if tag = 17 then do array 90; return .other
  else if tag = 23 then do let (timezone, points) ← routing; return .routing timezone points
  else if tag = 24 then do array 136; return .other
  else if tag = 31 then do let records ← orders; return .orders records
  else if tag = 36 then do let records ← positions; return .positions records
  else if tag = 37 then do
    let r ← record ACCOUNT_REC_SIZE
    let account ← Grammar.accepted (parseAccountRec r.bytes)
    return .account account
  else if tag = 40 then do auxiliary; return .other
  else if tag = 103 then do collection103; return .other
  else if tag = 105 then do array 128; return .other
  else if tag = 120 then do collection120; return .other
  else if tag = 121 ∨ tag = 128 then do blobs; return .other
  else if tag = 132 then do let _ ← record 3084; array 1288; return .other
  else if tag = 139 then do let _ ← record 16; return .other
  else fun _ _ => False

/-- The bytes of a section.  A zero byte and any bytes but 23 can stand before a
routing section. -/
def Spelled (bytes : Bytes) (s : Section) : Prop :=
  ∃ tag content, body tag content s ∧ (bytes = tag :: content ∨
    tag = 23 ∧ ∃ gap, 23 ∉ gap ∧ bytes = 0 :: (gap ++ 23 :: content))

/-- The bytes of sections in a row. -/
inductive Stream : Bytes → List Section → Prop
  | nil : Stream [] []
  | cons {bytes rest : Bytes} {s : Section} {sections : List Section} (first : Spelled bytes s)
      (others : Stream rest sections) : Stream (bytes ++ rest) (s :: sections)

/-- What the sections of a stream make of the state. -/
structure Describes (sections : List Section) (state : SynchronizedState) : Prop where
  account : sections.filterMap Section.account? = [state.account]
  one_foundation : (sections.filterMap Section.foundation?).length ≤ 1
  terms : state.terms = (sections.filterMap Section.foundation?).head?.map Prod.fst
  symbols : state.symbols = ((sections.filterMap Section.foundation?).head?.map Prod.snd).getD []
  orders : state.orders = sections.flatMap Section.orderRecords
  positions : state.positions = sections.flatMap Section.positionRecords
  timezone : state.serverTimezoneMinutes =
    (sections.filterMap Section.routing?).getLast?.map Prod.fst
  accessPoints : state.accessPoints =
    ((sections.filterMap Section.routing?).getLast?.map Prod.snd).getD []

/-! ## The readers read their formats -/

section Readers

open Decoder Grammar

variable {α β : Type}

theorem atLeast_record (size : Nat) : AtLeast (record size) size := by
  rintro bytes r rfl
  exact Nat.le_of_eq r.length_bytes.symm

theorem parses_take (size : Nat) : Parses (Sync.take size) (record size) := by
  intro input r rest
  unfold Sync.take
  constructor
  · intro h
    split at h
    · cases h
    · cases h
      exact ⟨input.take size, (List.take_append_drop size input).symm, rfl⟩
  · rintro ⟨bytes, rfl, rfl⟩
    obtain ⟨bytes, rfl⟩ := r
    rw [dif_neg (by simp)]
    simp only [List.take_left, List.drop_left]

theorem parses_word : Parses Sync.word word := by
  refine ((parses_take 4).bind fun r => .pure _).congr fun bytes v => ?_
  have hvalue : ∀ r : Record 4, r.i32 0 = LittleEndian.decodeInt r.bytes := by
    intro r
    show LittleEndian.decodeInt ((r.bytes.drop 0).take 4) = _
    rw [List.drop_zero, List.take_of_length_le (Nat.le_of_eq r.length_bytes)]
  constructor
  · rintro ⟨first, second, r, rfl, rfl, rfl, rfl⟩
    rw [List.append_nil]
    exact ⟨r.length_bytes, hvalue r⟩
  · rintro ⟨hlength, rfl⟩
    exact ⟨bytes, [], ⟨bytes, hlength⟩, (List.append_nil _).symm, rfl, rfl, (hvalue ⟨_, _⟩).symm⟩

theorem count_lt {bytes : Bytes} {n : Nat} (h : countWord bytes n) : n < 2 ^ 31 := by
  obtain ⟨hlength, hn⟩ := h
  rw [LittleEndian.decodeInt, hlength] at hn
  have hlt := Int.bmod_lt (x := (LittleEndian.decode bytes : Int)) (m := 256 ^ 4) (by decide)
  omega

/-- A count and what follows it: the check of the count rejects nothing, for what
follows has at least so many bytes. -/
theorem parses_count_bind {f : Nat → Reader α} {h : Nat → Format α}
    (hf : ∀ n < 2 ^ 31, Parses (f n) (h n)) (hlength : ∀ n, AtLeast (h n) n) :
    Parses (Sync.count >>= f) (countWord >>= h) := by
  intro input a rest
  rw [bind_eq_ok]
  constructor
  · rintro ⟨n, middle, hcount, hrest⟩
    unfold Sync.count at hcount
    split at hcount
    · cases hcount
    · rename_i v tail hword
      split at hcount
      · cases hcount
      · rename_i hcheck
        cases hcount
        obtain ⟨first, rfl, hfirst⟩ := (parses_word _ _ _).mp hword
        have hn : countWord first v.toNat := by
          refine ⟨hfirst.1, ?_⟩
          rw [← hfirst.2]
          omega
        obtain ⟨second, rfl, hsecond⟩ := (hf _ (count_lt hn) _ _ _).mp hrest
        exact ⟨first ++ second, (List.append_assoc _ _ _).symm, first, second, _, rfl, hn, hsecond⟩
  · rintro ⟨bytes, rfl, first, second, n, rfl, hn, hsecond⟩
    have hlong := hlength n second a hsecond
    have hword : Sync.word (first ++ (second ++ rest)) = .ok ((n : Int), second ++ rest) :=
      (parses_word _ _ _).mpr ⟨first, rfl, hn⟩
    refine ⟨n, second ++ rest, ?_, (hf n (count_lt hn) _ _ _).mpr ⟨second, rfl, hsecond⟩⟩
    unfold Sync.count
    rw [List.append_assoc, hword]
    simp only [Int.toNat_natCast]
    rw [if_neg (by rw [List.length_append]; omega)]

theorem parses_array {stride : Nat} (hpos : 1 ≤ stride) (hmax : stride ≤ 2 ^ 32) :
    Parses (Sync.array stride) (array stride) := by
  refine parses_count_bind (fun n hn => ?_) fun n => ?_
  · have hsize : n * stride ≤ 2 ^ 31 * 2 ^ 32 := Nat.mul_le_mul (Nat.le_of_lt hn) hmax
    rw [if_neg (by omega)]
    exact (parses_take _).bind fun _ => .pure ()
  · exact (atLeast_record _).bind_left.mono (Nat.le_mul_of_pos_right n hpos)

theorem parses_collection {x : Reader α} {g : Format α} (hx : Parses x g) (unchanged : α) :
    Parses (Sync.changed >>= fun c => if c then x else pure unchanged)
      (collection g unchanged) := by
  intro input a rest
  rw [bind_eq_ok]
  constructor
  · rintro ⟨c, middle, hchanged, hrest⟩
    obtain ⟨status, tail, hword, hstatus⟩ := bind_eq_ok.mp hchanged
    obtain ⟨first, rfl, hfirst⟩ := (parses_word _ _ _).mp hword
    split at hstatus
    · rename_i hzero
      obtain ⟨rfl, rfl⟩ := pure_eq_ok.mp hstatus
      obtain ⟨second, rfl, hsecond⟩ := (hx _ _ _).mp hrest
      exact ⟨first ++ second, (List.append_assoc _ _ _).symm,
        .inl ⟨first, second, rfl, hzero ▸ hfirst, hsecond⟩⟩
    · split at hstatus
      · rename_i hone
        obtain ⟨rfl, rfl⟩ := pure_eq_ok.mp hstatus
        obtain ⟨rfl, rfl⟩ := pure_eq_ok.mp hrest
        exact ⟨first, rfl, .inr ⟨hone ▸ hfirst, rfl⟩⟩
      · cases hstatus
  · have hstatus : ∀ {v : Int} {status tail : Bytes} {c : Bool}, word status v →
        (if v = 0 then pure true else if v = 1 then pure false
          else Reader.fail s!"unsupported synchronization collection status {v}" : Reader Bool)
          tail = .ok (c, tail) → Sync.changed (status ++ tail) = .ok (c, tail) := fun hv hc =>
      bind_eq_ok.mpr ⟨_, _, (parses_word _ _ _).mpr ⟨_, rfl, hv⟩, hc⟩
    rintro ⟨bytes, rfl, ⟨status, content, rfl, hzero, hcontent⟩ | ⟨hone, rfl⟩⟩
    · refine ⟨true, content ++ rest, ?_, (hx _ _ _).mpr ⟨content, rfl, hcontent⟩⟩
      rw [List.append_assoc]
      exact hstatus hzero rfl
    · exact ⟨false, rest, hstatus hone rfl, rfl⟩

theorem parses_times_bind {x : Reader α} {g : Format α} {f : List α → Reader β}
    {h : List α → Format β} (hx : Parses x g) (hg : AtLeast g 1) (hf : ∀ as, Parses (f as) (h as)) :
    Parses (Sync.count >>= fun n => Decoder.times x n >>= f)
      (countWord >>= fun n => Grammar.items g n >>= h) :=
  parses_count_bind (fun n _ => (hx.times n).bind hf) fun n =>
    (hg.items n).bind_left.mono (Nat.le_of_eq (Nat.mul_one n).symm)

theorem new_bytes {size : Nat} (r : Record size) : Record.new r.bytes size = .ok r :=
  dif_pos r.length_bytes

/-- A record of its size is accepted.  The digits of a symbol are the only field
that is checked. -/
theorem records_accepted :
    (∀ r : Record ACCOUNT_REC_SIZE, ∃ account, parseAccountRec r.bytes = .ok account) ∧
      (∀ r : Record 4228, ∃ terms, AccountTerms.parse r.bytes = .ok terms) ∧
      (∀ r : Record 636, ∃ order, Order.parse r.bytes = .ok order) ∧
      (∀ r : Record 672, ∃ deal, Deal.parse r.bytes = .ok deal) ∧
      ∀ (info : Record 1952) (group : Record 1228),
        (∃ symbol, Symbol.parse info.bytes group.bytes = .ok symbol) ↔
          0 ≤ info.i32 1424 ∧ info.i32 1424 ≤ 12 := by
  refine ⟨fun r => ?_, fun r => ?_, fun r => ?_, fun r => ?_, fun info group => ?_⟩
  · unfold parseAccountRec
    rw [dif_neg (Nat.not_lt.mpr (Nat.le_of_eq r.length_bytes.symm))]
    exact ⟨_, rfl⟩
  · unfold AccountTerms.parse
    rw [new_bytes]
    exact ⟨_, rfl⟩
  · unfold Order.parse
    rw [new_bytes]
    exact ⟨_, rfl⟩
  · unfold Deal.parse
    rw [new_bytes]
    exact ⟨_, rfl⟩
  · unfold Symbol.parse
    rw [new_bytes, new_bytes]
    by_cases hdigits : 0 ≤ info.i32 1424 ∧ info.i32 1424 ≤ 12
    · refine iff_of_true ⟨_, if_neg (not_not_intro hdigits)⟩ hdigits
    · refine iff_of_false ?_ hdigits
      rintro ⟨symbol, h⟩
      simp only [bind, Except.bind, if_pos hdigits] at h
      cases h

theorem parses_symbolRecord (info : Record 1952) (group : Record 1228) :
    Parses (Decoder.ofResult (Symbol.parse info.bytes group.bytes)) (symbolRecord info group) := by
  refine (Parses.ofResult _).congr fun bytes s => and_congr_right fun _ => ?_
  refine ⟨fun h => ⟨?_, h⟩, fun h => h.2⟩
  exact (records_accepted.2.2.2.2 info group).mp ⟨s, h⟩

theorem parses_pair (stride : Nat) (hpos : 1 ≤ stride) (hmax : stride ≤ 2 ^ 32) :
    Parses (do Sync.array stride; Sync.array stride) (do array stride; array stride) :=
  (parses_array hpos hmax).bind fun _ => parses_array hpos hmax

theorem parses_symbol : Parses Sync.symbol symbol := by
  refine (parses_take _).bind fun info => (parses_take _).bind fun group => ?_
  refine (parses_symbolRecord info group).bind fun s => ?_
  exact ((parses_pair 40 (by decide) (by decide)).times 7).bind fun _ =>
    (parses_take _).bind fun _ => .pure s

theorem atLeast_symbol : AtLeast symbol 1 := (atLeast_record 1952).bind_left.mono (by decide)

theorem parses_symbolBatch : Parses Sync.symbolBatch symbolBatch := by
  refine parses_collection (parses_times_bind parses_symbol atLeast_symbol fun symbols => ?_) []
  exact (parses_array (by decide) (by decide)).bind fun _ => .pure symbols

theorem parses_symbolFoundation : Parses Sync.symbolFoundation symbolFoundation := by
  have harray : Parses (Sync.array 160) (array 160) := parses_array (by decide) (by decide)
  refine (parses_take _).bind fun base => (Parses.ofResult _).bind fun terms => ?_
  refine (parses_array (by decide) (by decide)).bind fun _ => ?_
  refine parses_times_bind ((parses_take 908).bind fun _ => harray)
    ((atLeast_record 908).bind_left.mono (by decide)) fun _ => ?_
  refine (parses_take _).bind fun _ => ?_
  refine parses_times_bind ((parses_take 932).bind fun _ => harray)
    ((atLeast_record 932).bind_left.mono (by decide)) fun _ => ?_
  refine parses_symbolBatch.bind fun symbols => parses_collection ?_ _
  exact (parses_array (by decide) (by decide)).bind fun _ => .pure _

theorem parses_record {size : Nat} {f : Record size → Reader α} {h : Record size → Format α}
    (hf : ∀ r, Parses (f r) (h r)) :
    Parses (do let r ← Sync.take size; let r ← Decoder.ofResult (Record.new r.bytes size); f r)
      (record size >>= h) := by
  refine (parses_take size).bind fun r => ?_
  rw [new_bytes]
  exact hf r

theorem parses_address : Parses Sync.address address := parses_record fun r => .pure (r.text 0 128)

/-- The addresses of an access point, collected one after the other. -/
theorem foldl_addAddress (addresses : List String) :
    addresses.foldl Sync.addAddress [] = advertised addresses := by
  induction addresses using List.reverseRecOn with
  | nil => rfl
  | append_singleton addresses a ih =>
    rw [List.foldl_append, List.foldl_cons, List.foldl_nil, ih]
    unfold Sync.addAddress advertised
    rw [List.filter_append]
    by_cases hempty : a = ""
    · simp [hempty]
    · rw [List.filter_cons_of_pos (by simpa using hempty), List.filter_nil, List.eraseDups_append]
      generalize addresses.filter (· ≠ "") = kept
      by_cases hmem : a ∈ kept
      · simp [List.removeAll, List.mem_eraseDups, hmem]
      · simp [List.removeAll, List.mem_eraseDups, hmem, hempty, List.eraseDups_cons]

theorem parses_accessPoint : Parses Sync.accessPoint accessPoint := by
  refine parses_record fun r => ?_
  refine parses_times_bind parses_address ((atLeast_record 148).bind_left.mono (by decide))
    fun addresses => ?_
  rw [foldl_addAddress]
  exact .pure _

theorem parses_routing : Parses Sync.routing routing := by
  refine (parses_take _).bind fun r => ?_
  exact parses_times_bind parses_accessPoint ((atLeast_record 268).bind_left.mono (by decide))
    fun points => .pure _

theorem parses_auxiliary : Parses Sync.auxiliary auxiliary := by
  refine parses_collection (parses_times_bind ?_
    ((atLeast_record 100).bind_left.mono (by decide)) fun _ => ?_) ()
  · exact (parses_take _).bind fun _ => parses_pair 128 (by decide) (by decide)
  · exact parses_array (by decide) (by decide)

theorem parses_collection103 : Parses Sync.collection103 collection103 := by
  refine parses_collection (parses_times_bind ?_
    ((atLeast_record 1240).bind_left.mono (by decide)) fun _ => ?_) ()
  · exact (parses_take _).bind fun _ => (parses_array (by decide) (by decide)).bind fun _ =>
      (parses_array (by decide) (by decide)).bind fun _ =>
      (parses_array (by decide) (by decide)).bind fun _ =>
      (parses_array (by decide) (by decide)).bind fun _ => parses_array (by decide) (by decide)
  · exact (parses_array (by decide) (by decide)).bind fun _ => (parses_take _).bind fun _ =>
      .pure ()

/-- The size of an item, checked against the bytes that are left once or twice. -/
theorem parses_collectionSize_bind {f : Nat → Reader α} {h : Nat → Format α}
    (hf : ∀ n, Parses (f n) (h n)) (hlength : ∀ n, AtLeast (h n) n) :
    Parses (Sync.collectionSize >>= f) (sizeWord >>= h) := by
  have hdecoder : (Sync.collectionSize >>= f) = (Sync.count >>= fun size =>
      (if size = 0 then Sync.count else pure size) >>= f) := bind_assoc _ _ _
  have hformat : (sizeWord >>= h) = (countWord >>= fun size =>
      (if size = 0 then countWord else pure size) >>= h) := Grammar.bind_assoc _ _ _
  rw [hdecoder, hformat]
  refine parses_count_bind (fun n _ => ?_) fun n => ?_
  · by_cases hzero : n = 0
    · rw [if_pos hzero, if_pos hzero]
      exact parses_count_bind (fun m _ => hf m) hlength
    · rw [if_neg hzero, if_neg hzero]
      exact (Parses.pure n).bind hf
  · by_cases hzero : n = 0
    · subst hzero
      exact AtLeast.zero
    · rw [if_neg hzero, Grammar.pure_bind]
      exact hlength n

theorem parses_collection120 : Parses Sync.collection120 collection120 := by
  refine parses_times_bind ?_ ((atLeast_record 776).bind_left.mono (by decide)) fun _ => .pure ()
  refine (parses_take _).bind fun _ => parses_collectionSize_bind (fun size => ?_) fun size =>
    (atLeast_record size).bind_left
  exact (parses_take _).bind fun _ => (parses_array (by decide) (by decide)).bind fun _ =>
    (parses_array (by decide) (by decide)).bind fun _ => parses_array (by decide) (by decide)

theorem parses_blobs : Parses Sync.blobs blobs := by
  refine parses_times_bind ?_ ((atLeast_record 20).bind_left.mono (by decide)) fun _ => .pure ()
  refine (parses_take _).bind fun _ => parses_count_bind (fun size _ => ?_) fun size => ?_
  · exact (parses_take _).bind fun _ => (parses_take _).bind fun _ => .pure ()
  · exact ((atLeast_record 104).bind fun _ => (atLeast_record size).bind_left).mono
      (Nat.le_add_left _ _)

end Readers

/-! ## One section -/

open Sync (Sections)

/-- The parser goes on with this section: it has no other foundation and no other account. -/
def Allows (before : Sections) : Section → Prop
  | .foundation _ _ => before.terms = none
  | .account _ => before.account = none
  | _ => True

/-- The sections so far, and one more. -/
def add (before : Sections) : Section → Sections
  | .foundation terms symbols => { before with terms := some terms, symbols }
  | .routing timezone points =>
    { before with serverTimezoneMinutes := some timezone, accessPoints := points }
  | .orders records => { before with orders := before.orders ++ records }
  | .positions records => { before with positions := before.positions ++ records }
  | .account account => { before with account := some account }
  | .other => before

/-- The format of a section, as what the parser makes of it. -/
def added (before : Sections) (g : Format Section) : Format Sections := fun bytes after =>
  ∃ s, g bytes s ∧ Allows before s ∧ after = add before s

section OneSection

open Decoder
open Grammar (AtLeast)

variable {α : Type} (before : Sections)

theorem parses_added {x : Reader α} {g : Format α} (make : α → Section) (hx : Parses x g)
    (hallows : ∀ a, Allows before (make a)) :
    Parses (x >>= fun a => pure (add before (make a)))
      (added before (g >>= fun a => pure (make a))) := by
  refine (hx.bind fun a => .pure _).congr fun bytes after => ?_
  constructor
  · rintro ⟨first, second, a, rfl, hfirst, rfl, rfl⟩
    exact ⟨make a, ⟨first, [], a, rfl, hfirst, rfl, rfl⟩, hallows a, rfl⟩
  · rintro ⟨s, ⟨first, second, a, rfl, hfirst, rfl, rfl⟩, -, rfl⟩
    exact ⟨first, [], a, rfl, hfirst, rfl, rfl⟩

/-- A section that brings nothing. -/
theorem parses_other {x : Reader α} {g : Format α} (hx : Parses x g) :
    Parses (x >>= fun _ => pure before) (added before (g >>= fun _ => pure .other)) :=
  parses_added before (fun _ => .other) hx fun _ => trivial

/-- The body of a section that would be the second of its kind is refused. -/
theorem parses_refused {e : ProtocolError} {g : Format Section}
    (h : ∀ bytes s, g bytes s → ¬Allows before s) :
    Parses (Decoder.raise e) (added before g) :=
  .raise e fun bytes _ ⟨s, hs, hallows, _⟩ => h bytes s hs hallows

theorem parses_ite {c : Prop} [Decidable c] {x y : Reader Sections} {g h : Format Section}
    (hx : Parses x (added before g)) (hy : Parses y (added before h)) :
    Parses (if c then x else y) (added before (if c then g else h)) := by
  by_cases hc : c
  · rw [if_pos hc, if_pos hc]
    exact hx
  · rw [if_neg hc, if_neg hc]
    exact hy

theorem parses_orders :
    Parses (do let _ ← Sync.word; let n ← Sync.count; Decoder.times Sync.order n) orders := by
  have horder : Parses Sync.order
      (do let r ← record 636; Grammar.accepted (Order.parse r.bytes)) :=
    (parses_take 636).bind fun _ => .ofResult _
  have hlength : AtLeast (do let r ← record 636; Grammar.accepted (Order.parse r.bytes)) 1 :=
    (atLeast_record 636).bind_left.mono (by decide)
  exact parses_word.bind fun _ =>
    parses_count_bind (fun n _ => horder.times n) fun n =>
      (hlength.items n).mono (Nat.le_of_eq (Nat.mul_one n).symm)

theorem parses_positions :
    Parses (do let _ ← Sync.word; let n ← Sync.count; Decoder.times Sync.position n)
      positions := by
  have hposition : Parses Sync.position
      (do let r ← record 672; Grammar.accepted (Deal.parse r.bytes)) :=
    (parses_take 672).bind fun _ => .ofResult _
  have hlength : AtLeast (do let r ← record 672; Grammar.accepted (Deal.parse r.bytes)) 1 :=
    (atLeast_record 672).bind_left.mono (by decide)
  exact parses_word.bind fun _ =>
    parses_count_bind (fun n _ => hposition.times n) fun n =>
      (hlength.items n).mono (Nat.le_of_eq (Nat.mul_one n).symm)

theorem parses_foundationSection :
    Parses (if before.terms.isSome then Reader.fail "duplicate symbol foundation"
        else Sync.symbolFoundation >>= fun b => pure (add before (.foundation b.1 b.2)))
      (added before (symbolFoundation >>= fun b => pure (.foundation b.1 b.2))) := by
  by_cases hterms : before.terms.isSome
  · rw [if_pos hterms]
    refine parses_refused before ?_
    rintro bytes s ⟨first, second, a, rfl, -, -, rfl⟩ (hnone : before.terms = none)
    rw [hnone] at hterms
    cases hterms
  · rw [if_neg hterms]
    exact parses_added before (fun b => .foundation b.1 b.2) parses_symbolFoundation
      fun _ => Option.not_isSome_iff_eq_none.mp hterms

theorem parses_accountSection :
    Parses (if before.account.isSome then Reader.fail "duplicate account in synchronization"
        else Sync.take ACCOUNT_REC_SIZE >>= fun r =>
          Decoder.ofResult (parseAccountRec r.bytes) >>= fun a => pure (add before (.account a)))
      (added before (record ACCOUNT_REC_SIZE >>= fun r =>
        Grammar.accepted (parseAccountRec r.bytes) >>= fun a => pure (.account a))) := by
  by_cases haccount : before.account.isSome
  · rw [if_pos haccount]
    refine parses_refused before ?_
    rintro bytes s ⟨first, second, r, rfl, -, third, fourth, a, rfl, -, -, rfl⟩
      (hnone : before.account = none)
    rw [hnone] at haccount
    cases haccount
  · rw [if_neg haccount]
    simpa only [bind_assoc, Grammar.bind_assoc] using parses_added before .account
      ((parses_take ACCOUNT_REC_SIZE).bind fun r => .ofResult (parseAccountRec r.bytes))
      fun _ => Option.not_isSome_iff_eq_none.mp haccount

theorem parses_sectionBody (tag : UInt8) :
    Parses (Sync.sectionBody before tag) (added before (body tag)) := by
  refine parses_ite before (parses_foundationSection before) ?_
  refine parses_ite before (parses_other before (parses_array (by decide) (by decide))) ?_
  refine parses_ite before (parses_added before
    (fun b : Int × List AccessPoint => .routing b.1 b.2) parses_routing fun _ => trivial) ?_
  refine parses_ite before (parses_other before (parses_array (by decide) (by decide))) ?_
  refine parses_ite before ?_ ?_
  · simpa only [bind_assoc, add] using
      parses_added before .orders parses_orders fun _ => trivial
  refine parses_ite before ?_ ?_
  · simpa only [bind_assoc, add] using
      parses_added before .positions parses_positions fun _ => trivial
  refine parses_ite before (parses_accountSection before) ?_
  refine parses_ite before (parses_other before parses_auxiliary) ?_
  refine parses_ite before (parses_other before parses_collection103) ?_
  refine parses_ite before (parses_other before (parses_array (by decide) (by decide))) ?_
  refine parses_ite before (parses_other before parses_collection120) ?_
  refine parses_ite before (parses_other before parses_blobs) ?_
  refine parses_ite before ?_ ?_
  · have harray : Parses (Sync.array 1288) (array 1288) := parses_array (by decide) (by decide)
    simpa only [bind_assoc, Grammar.bind_assoc] using
      parses_other before ((parses_take 3084).bind fun _ => harray)
  refine parses_ite before (parses_other before (parses_take 16)) ?_
  exact parses_refused before fun _ _ hfalse => hfalse.elim

/-- The bytes up to the sentinel of a routing section, and the sentinel. -/
def gapToRouting : Format UInt8 := fun bytes tag =>
  tag = 23 ∧ ∃ gap, 23 ∉ gap ∧ bytes = gap ++ [23]

theorem parses_skipToRouting : Parses Sync.skipToRouting gapToRouting := by
  intro input tag rest
  induction input with
  | nil =>
    constructor
    · intro h
      cases h
    · rintro ⟨bytes, hnil, -, gap, -, rfl⟩
      simp at hnil
  | cons first input ih =>
    rw [Sync.skipToRouting]
    by_cases hfirst : first = 23
    · rw [if_pos hfirst]
      constructor
      · intro h
        cases h
        exact ⟨[23], by rw [hfirst]; rfl, hfirst, [], List.not_mem_nil, rfl⟩
      · rintro ⟨bytes, hinput, rfl, gap, hgap, rfl⟩
        cases gap with
        | nil =>
          cases hinput
          rfl
        | cons byte gap =>
          cases hinput
          exact absurd (hfirst ▸ List.mem_cons_self) hgap
    · rw [if_neg hfirst, ih]
      constructor
      · rintro ⟨bytes, rfl, rfl, gap, hgap, rfl⟩
        refine ⟨first :: (gap ++ [23]), rfl, rfl, first :: gap, ?_, rfl⟩
        simp only [List.mem_cons, not_or]
        exact ⟨Ne.symm hfirst, hgap⟩
      · rintro ⟨bytes, hinput, rfl, gap, hgap, rfl⟩
        cases gap with
        | nil =>
          cases hinput
          exact absurd rfl hfirst
        | cons byte gap =>
          cases hinput
          exact ⟨gap ++ [23], rfl, rfl, gap, fun h => hgap (List.mem_cons_of_mem _ h), rfl⟩

theorem parses_sectionTag (first : UInt8) :
    Parses (Sync.sectionTag first) (if first = 0 then gapToRouting else pure first) := by
  unfold Sync.sectionTag
  by_cases hzero : first = 0
  · rw [if_pos hzero, if_pos hzero]
    exact parses_skipToRouting
  · rw [if_neg hzero, if_neg hzero]
    exact .pure first

theorem not_body_zero (content : Bytes) (s : Section) : ¬body 0 content s := fun h => h

/-- A section, behind its first byte. -/
theorem spelled_cons_iff (first : UInt8) (bytes : Bytes) (s : Section) :
    Spelled (first :: bytes) s ↔
      ((if first = 0 then gapToRouting else pure first) >>= body) bytes s := by
  by_cases hzero : first = 0
  · subst hzero
    rw [if_pos rfl]
    constructor
    · rintro ⟨tag, content, hbody, hplain | ⟨rfl, gap, hgap, hbytes⟩⟩
      · cases hplain
        exact absurd hbody (not_body_zero _ _)
      · cases hbytes
        exact ⟨gap ++ [23], content, 23, by simp, ⟨rfl, gap, hgap, rfl⟩, hbody⟩
    · rintro ⟨_, content, tag, rfl, ⟨rfl, gap, hgap, rfl⟩, hbody⟩
      exact ⟨23, content, hbody, .inr ⟨rfl, gap, hgap, by simp⟩⟩
  · rw [if_neg hzero, Grammar.pure_bind]
    constructor
    · rintro ⟨tag, content, hbody, hplain | ⟨-, gap, -, hbytes⟩⟩
      · cases hplain
        exact hbody
      · cases hbytes
        exact absurd rfl hzero
    · exact fun hbody => ⟨first, bytes, hbody, .inl rfl⟩

theorem spelled_ne_nil {s : Section} : ¬Spelled [] s := by
  rintro ⟨tag, content, -, h | ⟨-, gap, -, h⟩⟩ <;> cases h

/-- What one round of the loop reads. -/
theorem restOfSection_iff (first : UInt8) (bytes rest : Bytes) (after : Sections) :
    Sync.restOfSection before first bytes = .ok (after, rest) ↔
      ∃ s content, bytes = content ++ rest ∧ Spelled (first :: content) s ∧ Allows before s ∧
        after = add before s := by
  have hparses : Parses (Sync.restOfSection before first) _ :=
    (parses_sectionTag first).bind fun tag => parses_sectionBody before tag
  rw [hparses bytes after rest]
  constructor
  · rintro ⟨word, rfl, gap, content, tag, rfl, hgap, s, hbody, hallows, rfl⟩
    exact ⟨s, gap ++ content, rfl,
      (spelled_cons_iff _ _ _).mpr ⟨gap, content, tag, rfl, hgap, hbody⟩, hallows, rfl⟩
  · rintro ⟨s, word, rfl, hspelled, hallows, rfl⟩
    obtain ⟨gap, content, tag, rfl, hgap, hbody⟩ := (spelled_cons_iff _ _ _).mp hspelled
    exact ⟨gap ++ content, rfl, gap, content, tag, rfl, hgap, s, hbody, hallows, rfl⟩

end OneSection

/-! ## All sections -/

/-- Every section is allowed behind the ones before it. -/
def AllAllowed : Sections → List Section → Prop
  | _, [] => True
  | before, s :: sections => Allows before s ∧ AllAllowed (add before s) sections

section AllSections

open Sync (sectionLoop)

variable (before : Sections)

theorem sectionLoop_ok (bytes : Bytes) (final : Sections) :
    sectionLoop.run (before, bytes) = .ok final →
      ∃ sections, Stream bytes sections ∧ AllAllowed before sections ∧
        final = sections.foldl add before := by
  refine sectionLoop.run_rule (P := fun s result => result = .ok final →
    ∃ sections, Stream s.2 sections ∧ AllAllowed s.1 sections ∧
      final = sections.foldl add s.1) ?_ ?_ (before, bytes)
  · rintro ⟨before, bytes⟩ result hstop rfl
    cases bytes with
    | nil =>
      cases hstop
      exact ⟨[], .nil, trivial, rfl⟩
    | cons first bytes =>
      simp only [sectionLoop] at hstop
      split at hstop <;> cases hstop
  · rintro ⟨before, bytes⟩ ⟨after, rest⟩ result hnext ih hresult
    cases bytes with
    | nil => cases hnext
    | cons first bytes =>
      simp only [sectionLoop] at hnext
      split at hnext
      · cases hnext
      · rename_i next hrest
        cases hnext
        obtain ⟨s, content, rfl, hspelled, hallows, rfl⟩ :=
          (restOfSection_iff before _ _ _ _).mp hrest
        obtain ⟨sections, hstream, hothers, rfl⟩ := ih hresult
        exact ⟨s :: sections, .cons hspelled hstream, ⟨hallows, hothers⟩, rfl⟩

theorem sectionLoop_of_stream {bytes : Bytes} {sections : List Section}
    (hstream : Stream bytes sections) (hallowed : AllAllowed before sections) :
    sectionLoop.run (before, bytes) = .ok (sections.foldl add before) := by
  induction hstream generalizing before with
  | nil => exact sectionLoop.run_of_stop rfl
  | @cons bytes rest s sections first others ih =>
    cases bytes with
    | nil => exact absurd first spelled_ne_nil
    | cons byte bytes =>
      have hround : Sync.restOfSection before byte (bytes ++ rest) = .ok (add before s, rest) :=
        (restOfSection_iff before _ _ _ _).mpr ⟨s, bytes, rfl, first, hallowed.1, rfl⟩
      rw [List.foldl_cons, ← ih (add before s) hallowed.2]
      refine sectionLoop.run_of_next ?_
      simp only [sectionLoop, List.cons_append, hround]

/-- What the sections bring, one behind the other.  Only one account and one
foundation were allowed. -/
theorem foldl_account {sections : List Section} (h : AllAllowed before sections) :
    (sections.foldl add before).account.toList =
      before.account.toList ++ sections.filterMap Section.account? := by
  induction sections generalizing before with
  | nil => exact (List.append_nil _).symm
  | cons s sections ih =>
    rw [List.foldl_cons, ih _ h.2]
    cases s with
    | account a =>
      have hnone : before.account = none := h.1
      simp [add, Section.account?, hnone]
    | _ => rfl

theorem foldl_foundation {sections : List Section} (h : AllAllowed before sections) :
    (sections.foldl add before).terms.toList =
      before.terms.toList ++ (sections.filterMap Section.foundation?).map Prod.fst := by
  induction sections generalizing before with
  | nil => exact (List.append_nil _).symm
  | cons s sections ih =>
    rw [List.foldl_cons, ih _ h.2]
    cases s with
    | foundation terms symbols =>
      have hnone : before.terms = none := h.1
      simp [add, Section.foundation?, hnone]
    | _ => rfl

theorem foldl_symbols (sections : List Section) :
    (sections.foldl add before).symbols =
      ((sections.filterMap Section.foundation?).getLast?.map Prod.snd).getD before.symbols := by
  induction sections generalizing before with
  | nil => rfl
  | cons s sections ih =>
    rw [List.foldl_cons, ih]
    cases s with
    | foundation terms symbols =>
      simp only [add, Section.foundation?, List.filterMap_cons, List.getLast?_cons]
      cases (sections.filterMap Section.foundation?).getLast? <;> rfl
    | _ => rfl

theorem foldl_orders (sections : List Section) :
    (sections.foldl add before).orders =
      before.orders ++ sections.flatMap Section.orderRecords := by
  induction sections generalizing before with
  | nil => exact (List.append_nil _).symm
  | cons s sections ih =>
    rw [List.foldl_cons, ih]
    cases s <;> simp [add, Section.orderRecords]

theorem foldl_positions (sections : List Section) :
    (sections.foldl add before).positions =
      before.positions ++ sections.flatMap Section.positionRecords := by
  induction sections generalizing before with
  | nil => exact (List.append_nil _).symm
  | cons s sections ih =>
    rw [List.foldl_cons, ih]
    cases s <;> simp [add, Section.positionRecords]

/-- The last routing section is the one that counts. -/
theorem foldl_routing (sections : List Section) :
    (sections.foldl add before).serverTimezoneMinutes =
        ((sections.filterMap Section.routing?).getLast?.map Prod.fst).or
          before.serverTimezoneMinutes ∧
      (sections.foldl add before).accessPoints =
        ((sections.filterMap Section.routing?).getLast?.map Prod.snd).getD before.accessPoints := by
  induction sections generalizing before with
  | nil => exact ⟨rfl, rfl⟩
  | cons s sections ih =>
    rw [List.foldl_cons, (ih _).1, (ih _).2]
    cases s with
    | routing timezone points =>
      simp only [add, Section.routing?, List.filterMap_cons, List.getLast?_cons]
      cases (sections.filterMap Section.routing?).getLast? <;> exact ⟨rfl, rfl⟩
    | _ => exact ⟨rfl, rfl⟩

theorem eq_none_of_length_le {α : Type} {o : Option α} {a : α} {as : List α}
    (h : (o.toList ++ a :: as).length ≤ 1) : o = none := by
  cases o with
  | none => rfl
  | some b => simp at h

theorem allAllowed_iff (sections : List Section) :
    AllAllowed before sections ↔
      (before.account.toList ++ sections.filterMap Section.account?).length ≤ 1 ∧
        (before.terms.toList ++ (sections.filterMap Section.foundation?).map Prod.fst).length ≤
          1 := by
  constructor
  · intro h
    rw [← foldl_account before h, ← foldl_foundation before h]
    exact ⟨Option.length_toList_le, Option.length_toList_le⟩
  · intro h
    induction sections generalizing before with
    | nil => trivial
    | cons s sections ih =>
      obtain ⟨haccounts, hfoundations⟩ := h
      cases s with
      | account a =>
        have hnone := eq_none_of_length_le haccounts
        refine ⟨hnone, ih _ ⟨?_, hfoundations⟩⟩
        rw [hnone] at haccounts
        exact haccounts
      | foundation terms symbols =>
        have hnone := eq_none_of_length_le hfoundations
        refine ⟨hnone, ih _ ⟨haccounts, ?_⟩⟩
        rw [hnone] at hfoundations
        exact hfoundations
      | _ => exact ⟨trivial, ih _ ⟨haccounts, hfoundations⟩⟩

end AllSections

/-- The sections of a state. -/
def sectionsOf (state : SynchronizedState) : Sections where
  account := some state.account
  terms := state.terms
  symbols := state.symbols
  orders := state.orders
  positions := state.positions
  serverTimezoneMinutes := state.serverTimezoneMinutes
  accessPoints := state.accessPoints

theorem getLast?_eq_head? {α : Type} {as : List α} (h : as.length ≤ 1) :
    as.getLast? = as.head? := by
  match as with
  | [] => rfl
  | [a] => rfl
  | a :: b :: as => simp at h

theorem describes_iff (sections : List Section) (state : SynchronizedState) :
    Describes sections state ↔
      AllAllowed {} sections ∧ sections.foldl add {} = sectionsOf state := by
  have hlength : AllAllowed {} sections ↔ (sections.filterMap Section.account?).length ≤ 1 ∧
      (sections.filterMap Section.foundation?).length ≤ 1 := by
    simpa using allAllowed_iff {} sections
  have horders := foldl_orders {} sections
  have hpositions := foldl_positions {} sections
  obtain ⟨htimezone, hpoints⟩ := foldl_routing {} sections
  have hsymbols := foldl_symbols {} sections
  rw [List.nil_append] at horders hpositions
  rw [Option.or_none] at htimezone
  constructor
  · intro h
    have hallowed : AllAllowed {} sections :=
      hlength.mpr ⟨by rw [h.account]; exact Nat.le_refl 1, h.one_foundation⟩
    have haccount := foldl_account {} hallowed
    have hterms := foldl_foundation {} hallowed
    refine ⟨hallowed, ?_⟩
    rw [getLast?_eq_head? h.one_foundation] at hsymbols
    generalize sections.foldl add {} = final at *
    obtain ⟨account, terms, symbols, orders, positions, timezone, points⟩ := final
    simp only [sectionsOf, Sections.mk.injEq]
    refine ⟨?_, ?_, hsymbols.trans h.symbols.symm, horders.trans h.orders.symm,
      hpositions.trans h.positions.symm, htimezone.trans h.timezone.symm,
      hpoints.trans h.accessPoints.symm⟩
    · rw [h.account] at haccount
      exact Option.head?_toList.symm.trans (congrArg List.head? haccount)
    · rw [h.terms, ← List.head?_map]
      exact Option.head?_toList.symm.trans (congrArg List.head? hterms)
  · rintro ⟨hallowed, hfinal⟩
    have haccount := foldl_account {} hallowed
    have hterms := foldl_foundation {} hallowed
    have hone := (hlength.mp hallowed).2
    rw [getLast?_eq_head? hone] at hsymbols
    rw [hfinal] at horders hpositions htimezone hpoints hsymbols haccount hterms
    refine ⟨haccount.symm, hone, ?_, hsymbols, horders, hpositions, htimezone, hpoints⟩
    rw [← List.head?_map]
    exact Option.head?_toList.symm.trans (congrArg List.head? hterms)

theorem word_zero_iff (bytes : Bytes) : word bytes 0 ↔ bytes = [0, 0, 0, 0] := by
  constructor
  · rintro ⟨hlength, hzero⟩
    have hlt := LittleEndian.decode_lt bytes
    rw [LittleEndian.decodeInt, hlength] at hzero
    rw [hlength] at hlt
    have hdecode : LittleEndian.decode bytes = 0 := by
      have := Int.dvd_of_bmod_eq_zero hzero.symm
      omega
    rw [← LittleEndian.encode_decode bytes, hdecode, hlength]
    rfl
  · rintro rfl
    exact ⟨rfl, by decide⟩

/-- The parser, as what its loop over the sections gives. -/
theorem parseSynchronizedState_eq_ok {stream : Bytes} {recordBuild : Int}
    (h : 4072 ≤ recordBuild) {state : SynchronizedState} :
    parseSynchronizedState stream recordBuild = .ok state ↔
      ∃ rest, stream = [0, 0, 0, 0] ++ rest ∧
        Sync.sectionLoop.run ({}, rest) = .ok (sectionsOf state) := by
  unfold parseSynchronizedState
  rw [if_neg (by omega), except_bind_eq_ok]
  constructor
  · rintro ⟨⟨status, rest⟩, hword, hrest⟩
    obtain ⟨bytes, rfl, hbytes⟩ := (parses_word _ _ _).mp hword
    simp only at hrest
    split at hrest
    · cases hrest
    · rename_i hzero
      rw [Decidable.not_not.mp hzero, word_zero_iff] at hbytes
      subst hbytes
      obtain ⟨sections, hloop, hlast⟩ := except_bind_eq_ok.mp hrest
      refine ⟨rest, rfl, ?_⟩
      rw [hloop]
      split at hlast
      · cases hlast
      · rename_i account haccount
        cases hlast
        obtain ⟨_, terms, symbols, orders, positions, timezone, points⟩ := sections
        cases haccount
        rfl
  · rintro ⟨rest, rfl, hloop⟩
    have hword : Sync.word ([0, 0, 0, 0] ++ rest) = .ok (0, rest) :=
      (parses_word _ _ _).mpr ⟨_, rfl, (word_zero_iff _).mpr rfl⟩
    refine ⟨(0, rest), hword, ?_⟩
    simp only [ne_eq, not_true, if_false]
    rw [hloop]
    rfl

end SyncGrammar

open SyncGrammar

/-- `parseSynchronizedState` accepts exactly the streams of the grammar, and the
state is what their sections describe.  The parser is a total function: its loops
end, and a record is read at offsets that are inside of it. -/
theorem parseSynchronizedState_iff (stream : Bytes) {recordBuild : Int} (h : 4072 ≤ recordBuild)
    (state : SynchronizedState) :
    parseSynchronizedState stream recordBuild = .ok state ↔
      ∃ rest sections, stream = [0, 0, 0, 0] ++ rest ∧ Stream rest sections ∧
        Describes sections state := by
  rw [parseSynchronizedState_eq_ok h]
  constructor
  · rintro ⟨rest, rfl, hloop⟩
    obtain ⟨sections, hstream, hallowed, hfinal⟩ := sectionLoop_ok _ _ _ hloop
    exact ⟨rest, sections, rfl, hstream, (describes_iff _ _).mpr ⟨hallowed, hfinal.symm⟩⟩
  · rintro ⟨rest, sections, rfl, hstream, hdescribes⟩
    obtain ⟨hallowed, hfinal⟩ := (describes_iff _ _).mp hdescribes
    exact ⟨rest, rfl, hfinal ▸ sectionLoop_of_stream _ hstream hallowed⟩

/-- An account record that holds a login and nothing else. -/
def sampleAccountRecord : Record ACCOUNT_REC_SIZE :=
  ⟨57 :: 48 :: List.replicate 2994 0, by decide +kernel⟩

def sampleAccount : AccountState := ⟨12345, .zero, .zero, .zero, 0, 0⟩

theorem parse_sampleAccountRecord :
    parseAccountRec sampleAccountRecord.bytes = .ok sampleAccount := by decide +kernel

/-- An account section with a section of tag 139 behind it. -/
theorem parseSynchronizedState_iff_sample :
    parseSynchronizedState
      ([0, 0, 0, 0] ++ (37 :: sampleAccountRecord.bytes ++ 139 :: List.replicate 16 0)) 5830 =
        .ok ⟨sampleAccount, none, [], [], [], none, []⟩ := by
  have haccount : Spelled (37 :: sampleAccountRecord.bytes) (.account sampleAccount) :=
    ⟨37, _, ⟨_, [], sampleAccountRecord, (List.append_nil _).symm, rfl, [], [], sampleAccount, rfl,
      ⟨rfl, parse_sampleAccountRecord⟩, rfl, rfl⟩, .inl rfl⟩
  have hother : Spelled (139 :: List.replicate 16 0) .other :=
    ⟨139, _, ⟨_, [], ⟨List.replicate 16 0, rfl⟩, (List.append_nil _).symm, rfl, rfl, rfl⟩, .inl rfl⟩
  refine (parseSynchronizedState_iff _ (by decide) _).mpr
    ⟨_, [.account sampleAccount, .other], rfl, .cons haccount ?_, ?_⟩
  · simpa using Stream.cons hother .nil
  · exact ⟨rfl, by decide, rfl, rfl, rfl, rfl, rfl, rfl⟩

end Mt5Open.Native

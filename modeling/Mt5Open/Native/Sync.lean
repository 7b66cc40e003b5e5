import Mt5Open.Lib.Loop
import Mt5Open.Native.Account
import Mt5Open.Native.Records

/-!
# The synchronization stream

The response to the synchronization request is a stream of tagged sections.
`parseSynchronizedState` reads all of it: the account, symbols, orders,
positions and routing, and the extents of the other sections.  An unknown tag is
an error.

The reader of this module has its own error texts.  Every section leaves no more
bytes than it was given, so the loop over the sections ends.
-/

namespace Mt5Open.Native

open Lib

structure AccessPoint where
  name : String
  addresses : List String
  deriving DecidableEq, Repr

structure SynchronizedState where
  account : AccountState
  terms : Option AccountTerms
  symbols : List Symbol
  orders : List Order
  positions : List Deal
  serverTimezoneMinutes : Option Int
  accessPoints : List AccessPoint
  deriving DecidableEq, Repr

namespace Sync

/-! ## The reader -/

/-- `Reader::take`, whose result has the size that was asked for. -/
def take (size : Nat) : Reader (Record size) := fun remaining =>
  if h : remaining.length < size then reject "truncated synchronization record"
  else
    .ok (⟨remaining.take size, by rw [List.length_take]; omega⟩, remaining.drop size)

def word : Reader Int := do
  let r ← take 4
  return r.i32 0

def count : Reader Nat := fun remaining =>
  match word remaining with
  | .error e => .error e
  | .ok (count, rest) =>
    if count < 0 ∨ rest.length < count.toNat then reject "invalid synchronization count"
    else .ok (count.toNat, rest)

def array (stride : Nat) : Reader Unit := do
  let count ← count
  if 2 ^ 64 ≤ count * stride then Reader.fail "synchronization array overflow"
  else
    let _ ← take (count * stride)
    return ()

def changed : Reader Bool := do
  let status ← word
  if status = 0 then return true
  else if status = 1 then return false
  else Reader.fail s!"unsupported synchronization collection status {status}"

/-! ## The sections -/

/-- One symbol of `symbol_foundation`. -/
def symbol : Reader Symbol := do
  let info ← take 1952
  let group ← take 1228
  let symbol ← Decoder.ofResult (Symbol.parse info.bytes group.bytes)
  let _ ← Decoder.times (do array 40; array 40) 7
  let _ ← take 80
  return symbol

/-- The symbols of `symbol_foundation`, none when the collection is unchanged. -/
def symbolBatch : Reader (List Symbol) := do
  let changed ← changed
  if changed then
    let symbols ← Decoder.times symbol (← count)
    array 4
    return symbols
  else return []

def symbolFoundation : Reader (AccountTerms × List Symbol) := do
  let terms ← Decoder.ofResult (AccountTerms.parse (← take 4228).bytes)
  array 1228
  let _ ← Decoder.times (do let _ ← take 908; array 160) (← count)
  let _ ← take 656
  let _ ← Decoder.times (do let _ ← take 932; array 160) (← count)
  let symbols ← symbolBatch
  let changed ← changed
  if changed then
    array 392
    return (terms, symbols)
  else return (terms, symbols)

/-- An address joins the addresses of its access point once. -/
def addAddress (addresses : List String) (address : String) : List String :=
  if address ≠ "" ∧ address ∉ addresses then addresses ++ [address] else addresses

/-- An address of an access point. -/
def address : Reader String := do
  let r ← Decoder.ofResult (Record.new (← take 148).bytes 148)
  return r.text 0 128

/-- One access point of `routing`. -/
def accessPoint : Reader AccessPoint := do
  let r ← Decoder.ofResult (Record.new (← take 268).bytes 268)
  let addresses ← Decoder.times address (← count)
  return { name := r.text 0 64, addresses := addresses.foldl addAddress [] }

def routing : Reader (Int × List AccessPoint) := do
  let r ← take 532
  let points ← Decoder.times accessPoint (← count)
  return (r.i32 396, points)

def auxiliary : Reader Unit := do
  let changed ← changed
  if changed then
    let _ ← Decoder.times (do let _ ← take 100; array 128; array 128) (← count)
    array 4
  else return ()

def collection103 : Reader Unit := do
  let changed ← changed
  if changed then
    let _ ← Decoder.times (do
      let _ ← take 1240
      array 1
      array 256
      array 256
      array 292
      array 292) (← count)
    array 8
    let _ ← take 16
    return ()
  else return ()

/-- A size, in the second count when the first one is zero. -/
def collectionSize : Reader Nat := do
  let size ← count
  if size = 0 then count else return size

def collection120 : Reader Unit := do
  let _ ← Decoder.times (do
    let _ ← take 776
    let size ← collectionSize
    let _ ← take size
    array 528
    array 208
    array 112) (← count)
  return ()

def blobs : Reader Unit := do
  let _ ← Decoder.times (do
    let _ ← take 20
    let size ← count
    let _ ← take 104
    let _ ← take size
    return ()) (← count)
  return ()

/-! ## The stream -/

/-- What the sections read so far have given. -/
structure Sections where
  account : Option AccountState := none
  terms : Option AccountTerms := none
  symbols : List Symbol := []
  orders : List Order := []
  positions : List Deal := []
  serverTimezoneMinutes : Option Int := none
  accessPoints : List AccessPoint := []
  deriving DecidableEq, Repr

/-- The bytes up to the routing sentinel are skipped. -/
def skipToRouting : Reader UInt8
  | [] => reject "truncated synchronization record"
  | tag :: rest => if tag = 23 then .ok (tag, rest) else skipToRouting rest

/-- The tag of the next section.  Tag 0 is a gap before the routing section. -/
def sectionTag (tag : UInt8) : Reader UInt8 := if tag = 0 then skipToRouting else return tag

def order : Reader Order := do
  Decoder.ofResult (Order.parse (← take 636).bytes)

def position : Reader Deal := do
  Decoder.ofResult (Deal.parse (← take 672).bytes)

/-- The body of a section with this tag. -/
def sectionBody (sections : Sections) (tag : UInt8) : Reader Sections := do
  if tag = 7 then
    if sections.terms.isSome then Reader.fail "duplicate symbol foundation"
    else
      let (terms, symbols) ← symbolFoundation
      return { sections with terms := some terms, symbols }
  else if tag = 17 then
    array 90
    return sections
  else if tag = 23 then
    let (timezone, points) ← routing
    return { sections with serverTimezoneMinutes := some timezone, accessPoints := points }
  else if tag = 24 then
    array 136
    return sections
  else if tag = 31 then
    let _ ← word
    let orders ← Decoder.times order (← count)
    return { sections with orders := sections.orders ++ orders }
  else if tag = 36 then
    let _ ← word
    let positions ← Decoder.times position (← count)
    return { sections with positions := sections.positions ++ positions }
  else if tag = 37 then
    if sections.account.isSome then Reader.fail "duplicate account in synchronization"
    else
      let account ← Decoder.ofResult (parseAccountRec (← take ACCOUNT_REC_SIZE).bytes)
      return { sections with account := some account }
  else if tag = 40 then
    auxiliary
    return sections
  else if tag = 103 then
    collection103
    return sections
  else if tag = 105 then
    array 128
    return sections
  else if tag = 120 then
    collection120
    return sections
  else if tag = 121 ∨ tag = 128 then
    blobs
    return sections
  else if tag = 132 then
    let _ ← take 3084
    array 1288
    return sections
  else if tag = 139 then
    let _ ← take 16
    return sections
  else Reader.fail s!"unsupported synchronization tag {tag}"

/-- A section, behind the byte that begins it. -/
def restOfSection (sections : Sections) (first : UInt8) : Reader Sections := do
  sectionBody sections (← sectionTag first)

/-! ## The sections end -/

section Ends

open Decoder

theorem shrinks_take (size : Nat) : Shrinks List.length (take size) := by
  intro remaining bytes rest h
  unfold take at h
  split at h
  · cases h
  · cases Except.ok.inj h
    rw [List.length_drop]
    omega

theorem shrinks_word : Shrinks List.length word := (shrinks_take 4).bind fun _ => .pure _

theorem shrinks_count : Shrinks List.length count := by
  intro remaining n rest h
  unfold count at h
  split at h
  · cases h
  · rename_i v middle hword
    split at h
    · cases h
    · cases Except.ok.inj h
      exact shrinks_word _ _ _ hword

theorem shrinks_array (stride : Nat) : Shrinks List.length (array stride) := by
  apply shrinks_count.bind
  intro n
  split
  · exact .raise _
  · exact (shrinks_take _).bind fun _ => .pure _

theorem shrinks_changed : Shrinks List.length changed := by
  apply shrinks_word.bind
  intro status
  split
  · exact .pure _
  · split
    · exact .pure _
    · exact .raise _

theorem shrinks_symbol : Shrinks List.length symbol :=
  (shrinks_take _).bind fun _ => (shrinks_take _).bind fun _ => (Shrinks.ofResult _).bind fun _ =>
    (((shrinks_array _).bind fun _ => shrinks_array _).times 7).bind fun _ =>
      (shrinks_take _).bind fun _ => .pure _

theorem shrinks_symbolBatch : Shrinks List.length symbolBatch := by
  apply shrinks_changed.bind
  intro changed
  split
  · exact shrinks_count.bind fun n => (shrinks_symbol.times n).bind fun _ =>
      (shrinks_array _).bind fun _ => .pure _
  · exact .pure _

theorem shrinks_symbolFoundation : Shrinks List.length symbolFoundation := by
  apply (shrinks_take _).bind
  intro bytes
  apply (Shrinks.ofResult _).bind
  intro terms
  apply (shrinks_array _).bind
  intro _
  apply shrinks_count.bind
  intro groups
  apply (((shrinks_take _).bind fun _ => shrinks_array _).times groups).bind
  intro _
  apply (shrinks_take _).bind
  intro _
  apply shrinks_count.bind
  intro sessions
  apply (((shrinks_take _).bind fun _ => shrinks_array _).times sessions).bind
  intro _
  apply shrinks_symbolBatch.bind
  intro symbols
  apply shrinks_changed.bind
  intro changed
  split
  · exact (shrinks_array _).bind fun _ => .pure _
  · exact .pure _

theorem shrinks_accessPoint : Shrinks List.length accessPoint := by
  have haddress : Shrinks List.length address :=
    (shrinks_take _).bind fun _ => (Shrinks.ofResult _).bind fun _ => .pure _
  exact (shrinks_take _).bind fun _ => (Shrinks.ofResult _).bind fun _ =>
    shrinks_count.bind fun n => (haddress.times n).bind fun _ => .pure _

theorem shrinks_routing : Shrinks List.length routing :=
  (shrinks_take _).bind fun _ => shrinks_count.bind fun n =>
    (shrinks_accessPoint.times n).bind fun _ => .pure _

theorem shrinks_auxiliary : Shrinks List.length auxiliary := by
  apply shrinks_changed.bind
  intro changed
  split
  · exact shrinks_count.bind fun n =>
      (((shrinks_take _).bind fun _ => (shrinks_array _).bind fun _ =>
        shrinks_array _).times n).bind fun _ => shrinks_array _
  · exact .pure _

theorem shrinks_collection103 : Shrinks List.length collection103 := by
  apply shrinks_changed.bind
  intro changed
  split
  · exact shrinks_count.bind fun n =>
      (((shrinks_take _).bind fun _ => (shrinks_array _).bind fun _ =>
        (shrinks_array _).bind fun _ => (shrinks_array _).bind fun _ =>
        (shrinks_array _).bind fun _ => shrinks_array _).times n).bind fun _ =>
      (shrinks_array _).bind fun _ => (shrinks_take _).bind fun _ => .pure _
  · exact .pure _

theorem shrinks_collectionSize : Shrinks List.length collectionSize := by
  apply shrinks_count.bind
  intro size
  split
  · exact shrinks_count
  · exact .pure _

theorem shrinks_collection120 : Shrinks List.length collection120 :=
  shrinks_count.bind fun n =>
    (((shrinks_take _).bind fun _ => shrinks_collectionSize.bind fun _ =>
      (shrinks_take _).bind fun _ => (shrinks_array _).bind fun _ =>
      (shrinks_array _).bind fun _ => shrinks_array _).times n).bind fun _ => .pure _

theorem shrinks_blobs : Shrinks List.length blobs :=
  shrinks_count.bind fun n =>
    (((shrinks_take _).bind fun _ => shrinks_count.bind fun _ =>
      (shrinks_take _).bind fun _ => (shrinks_take _).bind fun _ => .pure _).times n).bind
        fun _ => .pure _

theorem shrinks_skipToRouting : Shrinks List.length skipToRouting := by
  intro bytes tag rest h
  induction bytes with
  | nil => cases h
  | cons byte bytes ih =>
    rw [skipToRouting] at h
    split at h
    · cases Except.ok.inj h
      simp only [List.length_cons]
      omega
    · have := ih h
      simp only [List.length_cons]
      omega

theorem shrinks_sectionTag (tag : UInt8) : Shrinks List.length (sectionTag tag) := by
  unfold sectionTag
  split
  · exact shrinks_skipToRouting
  · exact .pure _

theorem shrinks_sectionBody (sections : Sections) (tag : UInt8) :
    Shrinks List.length (sectionBody sections tag) := by
  have horder : Shrinks List.length order := (shrinks_take _).bind fun _ => .ofResult _
  have hposition : Shrinks List.length position := (shrinks_take _).bind fun _ => .ofResult _
  unfold sectionBody
  repeat' apply Shrinks.ite
  · exact .raise _
  · exact shrinks_symbolFoundation.bind fun _ => .pure _
  · exact (shrinks_array _).bind fun _ => .pure _
  · exact shrinks_routing.bind fun _ => .pure _
  · exact (shrinks_array _).bind fun _ => .pure _
  · exact shrinks_word.bind fun _ => shrinks_count.bind fun n =>
      (horder.times n).bind fun _ => .pure _
  · exact shrinks_word.bind fun _ => shrinks_count.bind fun n =>
      (hposition.times n).bind fun _ => .pure _
  · exact .raise _
  · exact (shrinks_take _).bind fun _ => (Shrinks.ofResult _).bind fun _ => .pure _
  · exact shrinks_auxiliary.bind fun _ => .pure _
  · exact shrinks_collection103.bind fun _ => .pure _
  · exact (shrinks_array _).bind fun _ => .pure _
  · exact shrinks_collection120.bind fun _ => .pure _
  · exact shrinks_blobs.bind fun _ => .pure _
  · exact (shrinks_take _).bind fun _ => (shrinks_array _).bind fun _ => .pure _
  · exact (shrinks_take _).bind fun _ => .pure _
  · exact .raise _

theorem shrinks_restOfSection (sections : Sections) (first : UInt8) :
    Shrinks List.length (restOfSection sections first) :=
  (shrinks_sectionTag first).bind fun tag => shrinks_sectionBody sections tag

end Ends

/-- The loop of `parse_synchronized_state` over the sections. -/
def sectionLoop : Loop (Sections × Bytes) (Result Sections) where
  body
    | (sections, []) => .inr (.ok sections)
    | (sections, first :: rest) =>
      match restOfSection sections first rest with
      | .error e => .inr (.error e)
      | .ok next => .inl next
  measure s := s.2.length
  decreases := by
    rintro ⟨sections, bytes⟩ t h
    cases bytes with
    | nil => cases h
    | cons first rest =>
      simp only at h
      split at h
      · cases h
      · rename_i next hnext
        cases Sum.inl.inj h
        exact Nat.lt_succ_of_le (shrinks_restOfSection sections first rest _ _ hnext)

end Sync

open Sync in
/-- `parse_synchronized_state`. -/
def parseSynchronizedState (stream : Bytes) (recordBuild : Int) : Result SynchronizedState :=
  if recordBuild < 4072 then
    reject "account synchronization requires record build 4072 or newer"
  else do
    let (status, rest) ← word stream
    if status ≠ 0 then reject s!"account synchronization rejected with status {status}"
    else
      let sections ← sectionLoop.run ({}, rest)
      match sections.account with
      | none => reject "synchronization contains no account record"
      | some account => return {
          account
          terms := sections.terms
          symbols := sections.symbols
          orders := sections.orders
          positions := sections.positions
          serverTimezoneMinutes := sections.serverTimezoneMinutes
          accessPoints := sections.accessPoints }

end Mt5Open.Native

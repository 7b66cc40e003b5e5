import Mt5Open.Native.Auth

/-!
# The synchronization request at the other end

The client hides the answers to the two challenge programs in the entries 88
and 134 of its synchronization request.  A broker that knows the login, the
builds and its own challenge reads the entries back and recovers both answers.
-/

namespace Mt5Open.Native

open Lib

/-! ## The entries -/

/-- The request has the entries of the newer builds. -/
def Modern (clientBuild serverBuild : Nat) : Prop := 4200 < clientBuild ∧ 4200 ≤ serverBuild

instance (clientBuild serverBuild : Nat) : Decidable (Modern clientBuild serverBuild) :=
  inferInstanceAs (Decidable (_ ∧ _))

/-- The entries of a synchronization request, in order. -/
def syncItems (login clientBuild serverBuild : Nat) (unixSeconds : Int)
    (loginId extendedLoginId : UInt64) (environmentText : Option String) : List (UInt8 × Bytes) :=
  let e := md5 []
  let zero64 := LittleEndian.encodeInt 8 0
  let zero32 := LittleEndian.encode 4 0
  [(34, LittleEndian.encodeInt 8 (-1)),
    (39, zero32),
    (108, (md5 (LittleEndian.encode 8 login)).take 8),
    (139, LittleEndian.encode 8 login ++ LittleEndian.encode 8 0),
    (22, 0 :: zero64),
    (24, LittleEndian.encodeInt 8 unixSeconds)] ++
  (if Modern clientBuild serverBuild then
    [(132, []), (127, utf16Bytes (environmentText.getD "") ++ [0, 0])] else []) ++
  [(7, zero64 ++ zero32 ++ e ++ e),
    (40, zero64 ++ zero32 ++ e),
    (103, zero64 ++ zero32),
    (17, [0xf6, 0xeb, 0x06, 0x45, 0xcd, 0x12, 0x74, 0xf1, 0x52, 0xd9, 0x97, 0x93, 0xcb, 0xd8, 0xda,
      0xd8]),
    (88, leBytes (loginId ^^^ LOGIN_K))] ++
  (if Modern clientBuild serverBuild then [(134, leBytes (extendedLoginId ^^^ LOGIN_K))] else [])

variable {login clientBuild serverBuild : Nat} {unixSeconds : Int}
  {loginId extendedLoginId : UInt64} {environmentText : Option String}

theorem makeSyncRequest_eq :
    makeSyncRequest login clientBuild serverBuild unixSeconds loginId extendedLoginId
        environmentText =
      encodeTlvs (syncItems login clientBuild serverBuild unixSeconds loginId extendedLoginId
        environmentText) := rfl

theorem length_md5 (data : Bytes) : (md5 data).length = 16 := by
  simp [md5, md5WithState]

theorem length_leBytes (v : UInt64) : (leBytes v).length = 8 := LittleEndian.length_encode _ _

/-- Every entry fits its length field, as long as the environment does. -/
theorem tlvsFit_syncItems
    (henvironment : (utf16Bytes (environmentText.getD "")).length + 2 < 2 ^ 31) :
    TlvsFit (syncItems login clientBuild serverBuild unixSeconds loginId extendedLoginId
      environmentText) := by
  unfold TlvsFit syncItems
  rw [List.forall_mem_append, List.forall_mem_append, List.forall_mem_append]
  refine ⟨⟨⟨?_, ?_⟩, ?_⟩, ?_⟩
  · simp [length_md5]
  · split
    · simpa using henvironment
    · simp
  · simp [length_md5, length_leBytes]
  · split
    · simp [length_leBytes]
    · simp

/-- The broker reads the entries of the request. -/
theorem parseTlvs_makeSyncRequest
    (henvironment : (utf16Bytes (environmentText.getD "")).length + 2 < 2 ^ 31) :
    parseTlvs (makeSyncRequest login clientBuild serverBuild unixSeconds loginId extendedLoginId
        environmentText) =
      .ok (syncItems login clientBuild serverBuild unixSeconds loginId extendedLoginId
        environmentText) :=
  parseTlvs_encodeTlvs (tlvsFit_syncItems henvironment)

/-! ## The answers -/

/-- The value of the first entry with this tag. -/
def valueOf (tag : UInt8) (items : List (UInt8 × Bytes)) : Option Bytes :=
  (items.find? (·.1 = tag)).map Prod.snd

theorem valueOf_syncItems_88 :
    valueOf 88 (syncItems login clientBuild serverBuild unixSeconds loginId extendedLoginId
      environmentText) = some (leBytes (loginId ^^^ LOGIN_K)) := by
  unfold valueOf syncItems
  by_cases h : Modern clientBuild serverBuild
  · simp [h]
  · simp [h]

theorem valueOf_syncItems_134 :
    valueOf 134 (syncItems login clientBuild serverBuild unixSeconds loginId extendedLoginId
      environmentText) =
      if Modern clientBuild serverBuild then some (leBytes (extendedLoginId ^^^ LOGIN_K))
      else none := by
  unfold valueOf syncItems
  by_cases h : Modern clientBuild serverBuild
  · simp [h]
  · simp [h]

/-- What both ends know and the wrapped answers are masked with. -/
def loginMask (login clientBuild : Nat) (challenge : Bytes) : UInt64 :=
  UInt64.ofNat login ^^^ UInt64.ofNat clientBuild ^^^
    UInt64.ofNat (LittleEndian.decode (slice challenge 0 8))

/-- What newer server builds add to an answer. -/
def buildAddend (serverBuild : Nat) : UInt64 :=
  if 5409 ≤ serverBuild then UInt64.ofNat (serverBuild % 8) else 0

/-- What newer server builds mask the second answer with. -/
def buildMask (serverBuild : Nat) : UInt64 := if 4852 ≤ serverBuild then LOGIN_J else 0

/-- The answer to the program of tag 28, from the entry 88. -/
def unwrap28 (login clientBuild serverBuild : Nat) (challenge value : Bytes) : UInt64 :=
  (UInt64.ofNat (LittleEndian.decode value) ^^^ loginMask login clientBuild challenge) -
    buildAddend serverBuild

/-- The answer to the program of tag 35, from the entry 134. -/
def unwrap35 (login clientBuild serverBuild : Nat) (challenge value : Bytes) : UInt64 :=
  (UInt64.ofNat (LittleEndian.decode value) - buildAddend serverBuild) ^^^ buildMask serverBuild ^^^
    loginMask login clientBuild challenge

theorem xor_cancel (a b : UInt64) : a ^^^ b ^^^ b = a := by
  rw [UInt64.xor_assoc, UInt64.xor_self, UInt64.xor_zero]

theorem decode_leBytes (v : UInt64) : UInt64.ofNat (LittleEndian.decode (leBytes v)) = v := by
  rw [leBytes, LittleEndian.decode_encode_of_lt]
  · exact UInt64.ofNat_toNat
  · exact v.toNat_lt

section Answers

variable (login clientBuild serverBuild : Nat) (challenge : Bytes) (f28Result f35Result : UInt64)

theorem tag88Value_eq :
    (loginValueWrapper login clientBuild serverBuild challenge f28Result f35Result).tag88Value =
      leBytes
        ((f28Result + buildAddend serverBuild) ^^^ loginMask login clientBuild challenge) := by
  show leBytes ((_ ^^^ LOGIN_K) ^^^ LOGIN_K) = _
  rw [xor_cancel]
  unfold buildAddend loginMask
  by_cases h : 5409 ≤ serverBuild
  · simp only [if_pos h, UInt64.xor_assoc]
  · simp only [if_neg h, UInt64.xor_assoc, UInt64.add_zero]

theorem tag134Value_eq :
    (loginValueWrapper login clientBuild serverBuild challenge f28Result f35Result).tag134Value =
      leBytes (((f35Result ^^^ loginMask login clientBuild challenge) ^^^ buildMask serverBuild) +
        buildAddend serverBuild) := by
  show leBytes ((_ ^^^ LOGIN_K) ^^^ LOGIN_K) = _
  rw [xor_cancel]
  unfold buildAddend buildMask loginMask
  by_cases hmask : 4852 ≤ serverBuild
  · by_cases h : 5409 ≤ serverBuild
    · simp only [if_pos h, if_pos hmask]
    · simp only [if_neg h, if_pos hmask, UInt64.add_zero]
  · have h : ¬5409 ≤ serverBuild := by omega
    simp only [if_neg h, if_neg hmask, UInt64.add_zero, UInt64.xor_zero]

theorem unwrap28_eq :
    unwrap28 login clientBuild serverBuild challenge
      (loginValueWrapper login clientBuild serverBuild challenge f28Result f35Result).tag88Value =
      f28Result := by
  rw [tag88Value_eq, unwrap28, decode_leBytes, xor_cancel, UInt64.add_sub_cancel]

theorem unwrap35_eq :
    unwrap35 login clientBuild serverBuild challenge
      (loginValueWrapper login clientBuild serverBuild challenge f28Result f35Result).tag134Value =
      f35Result := by
  rw [tag134Value_eq, unwrap35, decode_leBytes, UInt64.add_sub_cancel, xor_cancel, xor_cancel]

end Answers

/-- A broker that reads the request recovers the answers to its programs, the second one as
long as both builds are modern. -/
theorem syncRequest_answers {challenge : Bytes} {f28Result f35Result : UInt64} {v : LoginValues}
    (hv : v = loginValueWrapper login clientBuild serverBuild challenge f28Result f35Result)
    (henvironment : (utf16Bytes (environmentText.getD "")).length + 2 < 2 ^ 31) :
    ∃ items,
      parseTlvs (makeSyncRequest login clientBuild serverBuild unixSeconds v.loginId
        v.extendedLoginId environmentText) = .ok items ∧
      (valueOf 88 items).map (unwrap28 login clientBuild serverBuild challenge) =
        some f28Result ∧
      (valueOf 134 items).map (unwrap35 login clientBuild serverBuild challenge) =
        if Modern clientBuild serverBuild then some f35Result else none := by
  refine ⟨_, parseTlvs_makeSyncRequest henvironment, ?_, ?_⟩
  · rw [valueOf_syncItems_88, Option.map_some, hv]
    exact congrArg some (unwrap28_eq login clientBuild serverBuild challenge f28Result f35Result)
  · rw [valueOf_syncItems_134]
    by_cases h : Modern clientBuild serverBuild
    · rw [if_pos h, if_pos h, Option.map_some, hv]
      exact congrArg some (unwrap35_eq login clientBuild serverBuild challenge f28Result f35Result)
    · rw [if_neg h, if_neg h]
      rfl

end Mt5Open.Native

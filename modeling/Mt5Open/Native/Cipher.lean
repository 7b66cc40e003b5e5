import Mt5Open.Lib.Mealy
import Mt5Open.Native.Reader

/-!
# The two byte-feedback stream ciphers

They look alike and are not the same.  The startup cipher feeds the ciphertext
byte back and starts again with every call.  The session cipher feeds the
plaintext byte back, and its position in the key goes on from call to call for
the life of the connection.

`decrypt_encrypt` is the round trip of the session cipher: a receiver in the
state of the sender recovers the plaintext and ends in the state of the sender.
`encrypt_calls` says that the cuts between calls do not matter, and
`ciphers_round_trip` is about both ciphers and any cuts on the two sides.
-/

namespace Mt5Open.Native

open Lib

/-- Fixed key for the handshake cipher. -/
def STARTUP_KEY : Bytes :=
  [0x41, 0xb6, 0x7f, 0x58, 0x38, 0x0c, 0xf0, 0x2d, 0x7b, 0x39, 0x08, 0xfe, 0x21, 0xbb, 0x41, 0x58]

/-! ## The startup cipher -/

/-- The bytes of `startup_encrypt` from index `i` on. -/
def startupEncryptFrom (key : Bytes) : Nat → UInt8 → Bytes → Bytes
  | _, _, [] => []
  | i, previous, plain :: rest =>
    let out := plain ^^^ (previous + key.getD (i % key.length) 0)
    out :: startupEncryptFrom key (i + 1) out rest

/-- `startup_encrypt`. -/
def startupEncrypt (data key : Bytes) : Result Bytes :=
  if key = [] then reject "empty cipher key" else .ok (startupEncryptFrom key 0 0 data)

/-- The bytes of `startup_decrypt` from index `i` on. -/
def startupDecryptFrom (key : Bytes) : Nat → UInt8 → Bytes → Bytes
  | _, _, [] => []
  | i, previous, cipher :: rest =>
    (cipher ^^^ (previous + key.getD (i % key.length) 0)) ::
      startupDecryptFrom key (i + 1) cipher rest

/-- `startup_decrypt`. -/
def startupDecrypt (data key : Bytes) : Result Bytes :=
  if key = [] then reject "empty cipher key" else .ok (startupDecryptFrom key 0 0 data)

/-- `startup_encrypt_default`. -/
def startupEncryptDefault (data : Bytes) : Bytes := startupEncryptFrom STARTUP_KEY 0 0 data

/-- `startup_decrypt_default`. -/
def startupDecryptDefault (data : Bytes) : Bytes := startupDecryptFrom STARTUP_KEY 0 0 data

theorem xor_xor_cancel (a b : UInt8) : (a ^^^ b) ^^^ b = a := by
  rw [UInt8.xor_assoc, UInt8.xor_self, UInt8.xor_zero]

/-! ## The session cipher -/

/-- The stateful session cipher. -/
structure SessionCipher where
  key : Bytes
  previousPlain : UInt8
  position : Nat
  key_ne : key ≠ []
  deriving DecidableEq

namespace SessionCipher

/-- `SessionCipher::new`. -/
def new (key : Bytes) : Result SessionCipher :=
  if h : key = [] then reject "empty session key"
  else .ok { key, previousPlain := 0, position := 0, key_ne := h }

/-- The key byte that the next byte is mixed with. -/
def keyByte (cipher : SessionCipher) : UInt8 :=
  cipher.key.getD (cipher.position % cipher.key.length) 0

/-- The state after one byte with this plaintext. -/
def advance (cipher : SessionCipher) (plain : UInt8) : SessionCipher :=
  { cipher with previousPlain := plain, position := cipher.position + 1 }

/-- `SessionCipher::encrypt`. -/
def encrypt (cipher : SessionCipher) : Bytes → Bytes × SessionCipher
  | [] => ([], cipher)
  | plain :: rest =>
    let (out, last) := (cipher.advance plain).encrypt rest
    ((plain ^^^ (cipher.previousPlain + cipher.keyByte)) :: out, last)

/-- `SessionCipher::decrypt`. -/
def decrypt (cipher : SessionCipher) : Bytes → Bytes × SessionCipher
  | [] => ([], cipher)
  | byte :: rest =>
    let plain := byte ^^^ (cipher.previousPlain + cipher.keyByte)
    let (out, last) := (cipher.advance plain).decrypt rest
    (plain :: out, last)

@[simp] theorem length_encrypt (cipher : SessionCipher) (data : Bytes) :
    (cipher.encrypt data).1.length = data.length := by
  induction data generalizing cipher with
  | nil => rfl
  | cons plain rest ih => simp [encrypt, ih]

/-- A receiver in the state of the sender recovers the plaintext and ends in the
state of the sender. -/
theorem decrypt_encrypt (cipher : SessionCipher) (data : Bytes) :
    cipher.decrypt (cipher.encrypt data).1 = (data, (cipher.encrypt data).2) := by
  induction data generalizing cipher with
  | nil => rfl
  | cons plain rest ih => simp only [encrypt, decrypt, xor_xor_cancel, ih]

end SessionCipher

/-! ## Both ciphers, byte by byte -/

/-- One byte of `startup_encrypt`, with the index and the byte before. -/
def startupEncryptByte (key : Bytes) (s : Nat × UInt8) (plain : UInt8) : UInt8 × Nat × UInt8 :=
  let out := plain ^^^ (s.2 + key.getD (s.1 % key.length) 0)
  (out, s.1 + 1, out)

/-- One byte of `startup_decrypt`. -/
def startupDecryptByte (key : Bytes) (s : Nat × UInt8) (cipher : UInt8) : UInt8 × Nat × UInt8 :=
  (cipher ^^^ (s.2 + key.getD (s.1 % key.length) 0), s.1 + 1, cipher)

theorem startupEncryptFrom_eq_run (key data : Bytes) (i : Nat) (previous : UInt8) :
    startupEncryptFrom key i previous data =
      (Mealy.run (startupEncryptByte key) (i, previous) data).1 := by
  induction data generalizing i previous with
  | nil => rfl
  | cons plain rest ih =>
    rw [startupEncryptFrom, ih]
    rfl

theorem startupDecryptFrom_eq_run (key data : Bytes) (i : Nat) (previous : UInt8) :
    startupDecryptFrom key i previous data =
      (Mealy.run (startupDecryptByte key) (i, previous) data).1 := by
  induction data generalizing i previous with
  | nil => rfl
  | cons cipher rest ih =>
    rw [startupDecryptFrom, ih]
    rfl

theorem startupDecrypt_undoes (key : Bytes) :
    Mealy.Undoes (startupEncryptByte key) (startupDecryptByte key) := by
  intro s plain
  simp only [startupEncryptByte, startupDecryptByte, xor_xor_cancel]

theorem startupEncrypt_undoes (key : Bytes) :
    Mealy.Undoes (startupDecryptByte key) (startupEncryptByte key) := by
  intro s cipher
  simp only [startupEncryptByte, startupDecryptByte, xor_xor_cancel]

namespace SessionCipher

/-- One byte of `SessionCipher::encrypt`. -/
def encryptByte (cipher : SessionCipher) (plain : UInt8) : UInt8 × SessionCipher :=
  (plain ^^^ (cipher.previousPlain + cipher.keyByte), cipher.advance plain)

/-- One byte of `SessionCipher::decrypt`. -/
def decryptByte (cipher : SessionCipher) (byte : UInt8) : UInt8 × SessionCipher :=
  let plain := byte ^^^ (cipher.previousPlain + cipher.keyByte)
  (plain, cipher.advance plain)

theorem encrypt_eq_run : encrypt = Mealy.run encryptByte := by
  funext cipher data
  induction data generalizing cipher with
  | nil => rfl
  | cons plain rest ih =>
    rw [encrypt, ih]
    rfl

theorem decrypt_eq_run : decrypt = Mealy.run decryptByte := by
  funext cipher data
  induction data generalizing cipher with
  | nil => rfl
  | cons byte rest ih =>
    rw [decrypt, ih]
    rfl

theorem decrypt_undoes : Mealy.Undoes encryptByte decryptByte := by
  intro cipher plain
  simp only [encryptByte, decryptByte, xor_xor_cancel]

theorem encrypt_undoes : Mealy.Undoes decryptByte encryptByte := by
  intro cipher byte
  simp only [encryptByte, decryptByte, xor_xor_cancel]

/-- Calls of `encrypt` are one call. -/
theorem encrypt_calls (cipher : SessionCipher) (chunks : List Bytes) :
    (Mealy.calls encrypt cipher chunks).1.flatten = (cipher.encrypt chunks.flatten).1 ∧
      (Mealy.calls encrypt cipher chunks).2 = (cipher.encrypt chunks.flatten).2 := by
  rw [encrypt_eq_run]
  exact Mealy.calls_eq cipher chunks

theorem length_encrypt_calls (cipher : SessionCipher) (chunks : List Bytes) :
    (Mealy.calls encrypt cipher chunks).1.map List.length = chunks.map List.length := by
  rw [encrypt_eq_run]
  exact Mealy.length_calls cipher chunks

theorem position_encrypt (cipher : SessionCipher) (data : Bytes) :
    (cipher.encrypt data).2.position = cipher.position + data.length := by
  induction data generalizing cipher with
  | nil => rfl
  | cons plain rest ih =>
    show ((cipher.advance plain).encrypt rest).2.position = _
    rw [ih, List.length_cons]
    show cipher.position + 1 + rest.length = _
    omega

/-- Two ends of a connection: however what is sent next is cut on the one side and on the
other, the receiver gives it and comes to the state of the sender. -/
def InStep (sender receiver : SessionCipher) : Prop :=
  ∀ chunks cuts : List Bytes,
    cuts.flatten = (Mealy.calls encrypt sender chunks).1.flatten →
      (Mealy.calls decrypt receiver cuts).1.flatten = chunks.flatten ∧
        (Mealy.calls decrypt receiver cuts).2 = (Mealy.calls encrypt sender chunks).2

theorem inStep_self (cipher : SessionCipher) : InStep cipher cipher := by
  intro chunks cuts hcuts
  rw [encrypt_eq_run] at hcuts ⊢
  rw [decrypt_eq_run]
  exact decrypt_undoes.calls hcuts

/-- A cipher that has seen no byte. -/
def fresh (key : Bytes) (h : key ≠ []) : SessionCipher where
  key := key
  previousPlain := 0
  position := 0
  key_ne := h

theorem new_of_ne {key : Bytes} (h : key ≠ []) : new key = .ok (fresh key h) := dif_neg h

theorem length_decrypt (cipher : SessionCipher) (data : Bytes) :
    (cipher.decrypt data).1.length = data.length := by
  rw [decrypt_eq_run]
  exact Mealy.length_run cipher data

/-- What is decrypted first is encrypted back. -/
theorem encrypt_decrypt (cipher : SessionCipher) (data : Bytes) :
    cipher.encrypt (cipher.decrypt data).1 = (data, (cipher.decrypt data).2) := by
  rw [encrypt_eq_run, decrypt_eq_run]
  exact encrypt_undoes.run cipher data

end SessionCipher

/-! ## The laws -/

theorem startup_round_trip {key : Bytes} (hkey : key ≠ []) (data : Bytes) :
    ∃ out, startupEncrypt data key = .ok out ∧ out.length = data.length ∧
      startupDecrypt out key = .ok data := by
  have hback := (startupDecrypt_undoes key).run (0, 0) data
  refine ⟨startupEncryptFrom key 0 0 data, if_neg hkey, ?_, ?_⟩
  · rw [startupEncryptFrom_eq_run, Mealy.length_run]
  · rw [startupDecrypt, if_neg hkey, startupDecryptFrom_eq_run, startupEncryptFrom_eq_run, hback]

theorem startup_round_trip_back {key : Bytes} (hkey : key ≠ []) (data : Bytes) :
    ∃ out, startupDecrypt data key = .ok out ∧ out.length = data.length ∧
      startupEncrypt out key = .ok data := by
  have hback := (startupEncrypt_undoes key).run (0, 0) data
  refine ⟨startupDecryptFrom key 0 0 data, if_neg hkey, ?_, ?_⟩
  · rw [startupDecryptFrom_eq_run, Mealy.length_run]
  · rw [startupEncrypt, if_neg hkey, startupEncryptFrom_eq_run, startupDecryptFrom_eq_run, hback]

open SessionCipher in
/-- Both ciphers are bijections that keep lengths.  Calls of the session cipher, however the
bytes are cut, are one call; a fresh receiver gives the plaintext of any cut of the
ciphertext; and the two ends are then in step. -/
theorem ciphers_round_trip {key : Bytes} (hkey : key ≠ []) :
    (∀ data, ∃ out, startupEncrypt data key = .ok out ∧ out.length = data.length ∧
      startupDecrypt out key = .ok data) ∧
    (∀ data, ∃ out, startupDecrypt data key = .ok out ∧ out.length = data.length ∧
      startupEncrypt out key = .ok data) ∧
    ∃ cipher, SessionCipher.new key = .ok cipher ∧
      (∀ data, (cipher.encrypt data).1.length = data.length ∧
        (cipher.decrypt (cipher.encrypt data).1).1 = data ∧
        (cipher.decrypt data).1.length = data.length ∧
        (cipher.encrypt (cipher.decrypt data).1).1 = data) ∧
      ∀ chunks cuts : List Bytes,
        let sent := Mealy.calls encrypt cipher chunks
        let received := Mealy.calls decrypt cipher cuts
        sent.1.map List.length = chunks.map List.length ∧
        sent.1.flatten = (cipher.encrypt chunks.flatten).1 ∧
        (cuts.flatten = sent.1.flatten →
          received.1.flatten = chunks.flatten ∧
          received.2.position = sent.2.position ∧
          received.2.previousPlain = sent.2.previousPlain ∧
          sent.2.position = chunks.flatten.length ∧
          InStep sent.2 received.2) := by
  refine ⟨startup_round_trip hkey, startup_round_trip_back hkey, fresh key hkey, new_of_ne hkey,
    fun data => ?_, fun chunks cuts => ?_⟩
  · rw [decrypt_encrypt, encrypt_decrypt]
    exact ⟨length_encrypt _ _, rfl, length_decrypt _ _, rfl⟩
  · intro sent received
    obtain ⟨hout, hend⟩ := encrypt_calls (fresh key hkey) chunks
    refine ⟨length_encrypt_calls _ _, hout, fun hcuts => ?_⟩
    obtain ⟨hplain, hsame⟩ := inStep_self (fresh key hkey) chunks cuts hcuts
    have hposition : sent.2.position = chunks.flatten.length := by
      rw [hend, position_encrypt]
      exact Nat.zero_add _
    show received.1.flatten = _ ∧ _
    rw [show received.2 = sent.2 from hsame]
    exact ⟨hplain, rfl, rfl, hposition, inStep_self _⟩

/-- Two cuts of five bytes, on either side. -/
theorem ciphers_round_trip_startupKey :
    ∃ cipher, SessionCipher.new STARTUP_KEY = .ok cipher ∧
      (Mealy.calls SessionCipher.encrypt cipher [[104, 101], [], [108, 108, 111]]).1 =
        [[0x29, 0x7b], [], [0x88, 0xa8, 0xcb]] ∧
      (Mealy.calls SessionCipher.decrypt cipher [[0x29], [0x7b, 0x88, 0xa8, 0xcb]]).1.flatten =
        [104, 101, 108, 108, 111] := by
  obtain ⟨-, -, cipher, hnew, -, hcalls⟩ :=
    ciphers_round_trip (show STARTUP_KEY ≠ [] by decide)
  refine ⟨cipher, hnew, ?_, ?_⟩
  · cases hnew
    decide +kernel
  · apply ((hcalls [[104, 101], [], [108, 108, 111]] _).2.2 ?_).1
    cases hnew
    decide +kernel

end Mt5Open.Native

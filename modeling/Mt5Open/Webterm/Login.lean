import Mt5Open.Webterm.Panics
import Mt5Open.Webterm.Rates

/-!
# Login to the web terminal

`dial` makes two exchanges.  The authentication command goes out under a key that
every client has, and its reply brings the session key.  The login command goes out
under the session key, with the login, the password and the name of the server in a
record of fixed size.

A `Server` is the other end of the two exchanges.  `dial_agrees` is the agreement:
the client has the key of the server, and the server has read what the client was
called with.

AES-256-CBC is a parameter, and what the two ends rely on is that a key of 32 bytes
takes back what it has enciphered: `Inverts`.
-/

namespace Mt5Open.Webterm.Login

open Lib Native.Checked
open Native (Fault utf16Units)
open Panics (STATIC_KEY CMD_LOGIN aesDecrypt openReply refuse ok_bind tail_of_le range_of_le
  response_eq)
open Trade (fromUtf16Le utf16Le length_utf16Le)
open Rates (fromUtf16Le_utf16Le)

def CMD_AUTH : UInt16 := 0

def LOGIN_SIZE : Nat := 912

/-! ## The envelope -/

/-- `pack_wire`. -/
def packWire (encrypted : Bytes) : Bytes :=
  LittleEndian.encode 4 encrypted.length ++ LittleEndian.encode 4 1 ++ encrypted

theorem drop_packWire (encrypted : Bytes) : (packWire encrypted).drop 8 = encrypted := by
  rw [packWire]
  exact List.drop_left' (by simp [LittleEndian.length_encode])

theorem length_packWire (encrypted : Bytes) :
    (packWire encrypted).length = 8 + encrypted.length := by
  simp [packWire, LittleEndian.length_encode]
  omega

section Cipher

-- AES-256-CBC under a key of 32 bytes and a zero vector, with padding.
variable (encrypt : Bytes → Bytes → Bytes) (decrypt : Bytes → Bytes → Except String Bytes)

/-- `aes_encrypt`. -/
def aesEncrypt (key plaintext : Bytes) : Except Fault Bytes :=
  if key.length ≠ 32 then refuse "AES-256 key must be 32 bytes" else .ok (encrypt key plaintext)

/-- A key takes back what it has enciphered. -/
def Inverts : Prop :=
  ∀ key plaintext : Bytes, key.length = 32 → decrypt key (encrypt key plaintext) = .ok plaintext

variable {encrypt decrypt}

theorem aesEncrypt_of_length {key : Bytes} (hkey : key.length = 32) (plaintext : Bytes) :
    aesEncrypt encrypt key plaintext = .ok (encrypt key plaintext) :=
  if_neg (not_not_intro hkey)

theorem aesDecrypt_encrypt (h : Inverts encrypt decrypt) {key : Bytes} (hkey : key.length = 32)
    (plaintext : Bytes) : aesDecrypt decrypt key (encrypt key plaintext) = .ok plaintext := by
  rw [aesDecrypt, if_neg (not_not_intro hkey), h key plaintext hkey]

end Cipher

/-! ## Answers -/

/-- What `parse_response` reads. -/
def packResponse (tag cmdId : UInt16) (resCode : UInt8) (body : Bytes) : Bytes :=
  LittleEndian.encode 2 tag.toNat ++ LittleEndian.encode 2 cmdId.toNat ++ resCode :: body

theorem parseResponse_packResponse (tag cmdId : UInt16) (resCode : UInt8) (body : Bytes) :
    parseResponse (packResponse tag cmdId resCode body) = some ⟨tag, cmdId, resCode, body⟩ := by
  have hparts : packResponse tag cmdId resCode body =
      [LittleEndian.encode 2 tag.toNat, LittleEndian.encode 2 cmdId.toNat, [resCode],
        body].flatten := by simp [packResponse]
  have hlength : (packResponse tag cmdId resCode body).length = 5 + body.length := by
    simp [packResponse, LittleEndian.length_encode]
    omega
  have htag :
      slice (packResponse tag cmdId resCode body) 0 2 = LittleEndian.encode 2 tag.toNat := by
    rw [hparts]
    exact slice_flatten (i := 0) rfl rfl (LittleEndian.length_encode _ _)
  have hid : slice (packResponse tag cmdId resCode body) 2 2 =
      LittleEndian.encode 2 cmdId.toNat := by
    rw [hparts]
    exact slice_flatten (i := 1) rfl (by simp [LittleEndian.length_encode])
      (LittleEndian.length_encode _ _)
  have hdrop : (packResponse tag cmdId resCode body).drop 5 = body := by
    rw [packResponse, List.append_cons]
    exact List.drop_left' (by simp [LittleEndian.length_encode])
  have hcode : (packResponse tag cmdId resCode body).getD 4 0 = resCode := by
    rw [packResponse, List.getD_append_right _ _ _ _ (by simp [LittleEndian.length_encode])]
    simp [LittleEndian.length_encode]
  rw [parseResponse, if_neg (by omega), htag, hdrop, hcode, cmdIdOf, hid,
    LittleEndian.decode_encode_of_lt tag.toNat_lt, LittleEndian.decode_encode_of_lt cmdId.toNat_lt,
    UInt16.ofNat_toNat, UInt16.ofNat_toNat]

/-! ## The login record -/

/-- `bytes[start..].copy_from_slice(part)`. -/
def copyTo (start : Nat) (part bytes : Bytes) : Bytes :=
  bytes.take start ++ part ++ bytes.drop (start + part.length)

/-- What was copied stands in the place of what was there. -/
theorem copyTo_append {start : Nat} {front old part : Bytes} (back : Bytes)
    (hstart : front.length = start) (hsize : old.length = part.length) :
    copyTo start part (front ++ (old ++ back)) = front ++ (part ++ back) := by
  rw [copyTo, List.take_left' hstart, ← List.append_assoc front old,
    List.drop_left' (by rw [List.length_append, hstart, hsize]), List.append_assoc]

/-- The number of UTF-16 units. -/
def units (s : String) : Nat := (s.toList.flatMap utf16Units).length

/-- `pack_login`. -/
def packLogin (login : Nat) (password server : String) : Bytes :=
  let pl := List.replicate LOGIN_SIZE 0
  let pw := utf16Le password (min (units password * 2) (LOGIN_SIZE - 4))
  let n := min pw.length (LOGIN_SIZE - 4)
  let pl := copyTo 4 (pw.take n) pl
  let ip := utf16Le server 256
  let pl := copyTo 476 (LittleEndian.encode 4 (units server)) pl
  let ipn := min ip.length (LOGIN_SIZE - 480)
  let pl := copyTo 480 (ip.take ipn) pl
  copyTo 736 (LittleEndian.encode 8 login) pl

/-- What a login names. -/
structure Credentials where
  login : Nat
  password : String
  server : String
  deriving DecidableEq

/-- How a server reads the record: the password stands in front of the number of characters
of the server name. -/
def readLogin (payload : Bytes) : Credentials where
  login := LittleEndian.decode (slice payload 736 8)
  password := fromUtf16Le (slice payload 4 472)
  server := fromUtf16Le (slice payload 480 (2 * LittleEndian.decode (slice payload 476 4)))

/-- The credentials fit their fields, and no name has a NUL. -/
structure Credentials.Fit (c : Credentials) : Prop where
  login : c.login < 2 ^ 64
  password : '\x00' ∉ c.password.toList ∧ units c.password ≤ 236
  server : '\x00' ∉ c.server.toList ∧ units c.server ≤ 128

/-- A wider field has more zeros. -/
theorem utf16Le_wider {s : String} {width : Nat} (h : 2 * units s ≤ width) :
    utf16Le s width = utf16Le s (2 * units s) ++ List.replicate (width - 2 * units s) 0 := by
  have hunits : ∀ n, units s ≤ n → (s.toList.flatMap utf16Units).take n =
      s.toList.flatMap utf16Units := fun n hn => List.take_of_length_le hn
  have hnone : List.replicate (2 * units s - 2 * (s.toList.flatMap utf16Units).length)
      (0 : UInt8) = [] := by simp [units]
  rw [utf16Le, utf16Le]
  simp only [hunits (width / 2) (by omega), hunits (2 * units s / 2) (by omega), hnone,
    List.append_nil]
  rfl

/-- The record field by field. -/
theorem packLogin_eq {c : Credentials} (h : c.Fit) :
    packLogin c.login c.password c.server =
      [List.replicate 4 0, utf16Le c.password 472, LittleEndian.encode 4 (units c.server),
        utf16Le c.server 256, LittleEndian.encode 8 c.login, List.replicate 168 0].flatten := by
  have hunits := h.password.2
  have hwidth : min (units c.password * 2) (LOGIN_SIZE - 4) = 2 * units c.password := by
    rw [LOGIN_SIZE]
    omega
  have hpw : (utf16Le c.password (2 * units c.password)).length = 2 * units c.password :=
    length_utf16Le _ _ (by omega)
  have hfield : (utf16Le c.password 472).length = 472 := length_utf16Le _ _ rfl
  have hip : (utf16Le c.server 256).length = 256 := length_utf16Le _ _ rfl
  have hzeros : List.replicate LOGIN_SIZE (0 : UInt8) =
      List.replicate 4 0 ++ (List.replicate (2 * units c.password) 0 ++
        (List.replicate (472 - 2 * units c.password) 0 ++ List.replicate 436 0)) := by
    have hsize : LOGIN_SIZE =
        4 + (2 * units c.password + (472 - 2 * units c.password + 436)) := by
      rw [LOGIN_SIZE]
      omega
    rw [hsize, List.replicate_append_replicate, List.replicate_append_replicate,
      List.replicate_append_replicate]
  have htail : List.replicate 436 (0 : UInt8) = List.replicate 4 0 ++ (List.replicate 256 0 ++
      (List.replicate 8 0 ++ List.replicate 168 0)) := by
    rw [List.replicate_append_replicate, List.replicate_append_replicate,
      List.replicate_append_replicate]
  rw [packLogin, hwidth]
  simp only [hpw, hip]
  rw [List.take_of_length_le (by rw [hip, LOGIN_SIZE]; omega),
    List.take_of_length_le (by rw [hpw, LOGIN_SIZE]; omega), hzeros,
    copyTo_append _ (List.length_replicate) (by rw [hpw, List.length_replicate]),
    ← List.append_assoc (utf16Le _ _) (List.replicate _ _),
    ← utf16Le_wider (Nat.le_trans (Nat.mul_le_mul_left 2 hunits) (by omega)),
    ← List.append_assoc (List.replicate 4 _), htail,
    copyTo_append _ (by simp only [List.length_append, List.length_replicate, hfield])
      (by rw [LittleEndian.length_encode, List.length_replicate]),
    ← List.append_assoc _ (LittleEndian.encode 4 _),
    copyTo_append _ (by simp only [List.length_append, List.length_replicate, hfield,
      LittleEndian.length_encode]) (by rw [hip, List.length_replicate]),
    ← List.append_assoc _ (utf16Le c.server 256),
    copyTo_append _ (by simp only [List.length_append, List.length_replicate, hfield,
      LittleEndian.length_encode, hip]) (by rw [LittleEndian.length_encode, List.length_replicate])]
  simp only [List.flatten_cons, List.flatten_nil, List.append_nil, List.append_assoc]

/-- The server reads what the client has packed. -/
theorem readLogin_packLogin {c : Credentials} (h : c.Fit) :
    readLogin (packLogin c.login c.password c.server) = c := by
  obtain ⟨hlogin, ⟨hpassword, hlong⟩, hserver, hwide⟩ := h
  have hfield : (utf16Le c.password 472).length = 472 := length_utf16Le _ _ rfl
  have hip : (utf16Le c.server 256).length = 256 := length_utf16Le _ _ rfl
  have hpw : slice (packLogin c.login c.password c.server) 4 472 = utf16Le c.password 472 := by
    rw [packLogin_eq ⟨hlogin, ⟨hpassword, hlong⟩, hserver, hwide⟩]
    exact slice_flatten (i := 1) rfl rfl hfield
  have hcount : slice (packLogin c.login c.password c.server) 476 4 =
      LittleEndian.encode 4 (units c.server) := by
    rw [packLogin_eq ⟨hlogin, ⟨hpassword, hlong⟩, hserver, hwide⟩]
    exact slice_flatten (i := 2) rfl (by simp [hfield]) (LittleEndian.length_encode _ _)
  have hnumber : slice (packLogin c.login c.password c.server) 736 8 =
      LittleEndian.encode 8 c.login := by
    rw [packLogin_eq ⟨hlogin, ⟨hpassword, hlong⟩, hserver, hwide⟩]
    exact slice_flatten (i := 4) rfl (by simp [hfield, hip, LittleEndian.length_encode])
      (LittleEndian.length_encode _ _)
  have hname : slice (packLogin c.login c.password c.server) 480 (2 * units c.server) =
      utf16Le c.server (2 * units c.server) := by
    have hwhole : slice (packLogin c.login c.password c.server) 480 256 =
        utf16Le c.server 256 := by
      rw [packLogin_eq ⟨hlogin, ⟨hpassword, hlong⟩, hserver, hwide⟩]
      exact slice_flatten (i := 3) rfl (by simp [hfield, LittleEndian.length_encode]) hip
    have hfront := congrArg (List.take (2 * units c.server)) hwhole
    rw [slice, List.take_take, Nat.min_eq_left (by omega), utf16Le_wider (by omega),
      List.take_left' (length_utf16Le _ _ (by omega))] at hfront
    exact hfront
  have hcounted : LittleEndian.decode (LittleEndian.encode 4 (units c.server)) = units c.server :=
    LittleEndian.decode_encode_of_lt (by omega)
  have hread : fromUtf16Le (utf16Le c.server (2 * units c.server)) = c.server :=
    fromUtf16Le_utf16Le hserver (Nat.le_of_eq (Nat.mul_div_cancel_left _ Nat.zero_lt_two).symm)
  rw [readLogin, hpw, hcount, hnumber, hcounted, hname, hread,
    LittleEndian.decode_encode_of_lt (by omega), fromUtf16Le_utf16Le hpassword hlong]

theorem length_packLogin {c : Credentials} (h : c.Fit) :
    (packLogin c.login c.password c.server).length = LOGIN_SIZE := by
  have hfield : (utf16Le c.password 472).length = 472 := length_utf16Le _ _ rfl
  have hip : (utf16Le c.server 256).length = 256 := length_utf16Le _ _ rfl
  rw [packLogin_eq h]
  simp only [List.flatten_cons, List.flatten_nil, List.length_append, List.length_replicate,
    List.length_nil, LittleEndian.length_encode, hfield, hip, LOGIN_SIZE]

/-! ## The two exchanges -/

section Dial

variable (encrypt : Bytes → Bytes → Bytes) (decrypt : Bytes → Bytes → Except String Bytes)

/-- `write.send(Message::Binary(pack_wire(&aes_encrypt(key, &build_command(..))?)))`. -/
def sealCommand (key : Bytes) (random cmdId : UInt16) (payload : Bytes) : Except Fault Bytes := do
  let encrypted ← aesEncrypt encrypt key (buildCommand random cmdId payload)
  return packWire encrypted

/-- `write.send(..)` and `wait_bin`, with a peer that answers or closes. -/
def exchange {σ : Type} (peer : σ → Bytes → Option (Bytes × σ)) (message : Bytes) (s : σ) :
    Except Fault (Bytes × σ) :=
  match peer s message with
  | some answer => .ok answer
  | none => refuse "closed"

/-- The handshake of `Client::dial`, with the session key and the peer behind it. -/
def dial {σ : Type} (peer : σ → Bytes → Option (Bytes × σ)) (authRandom loginRandom : UInt16)
    (c : Credentials) (s : σ) : Except Fault (Bytes × σ) := do
  let auth ← sealCommand encrypt STATIC_KEY authRandom CMD_AUTH (List.replicate 64 0)
  let (raw, s) ← exchange peer auth s
  let sessionKey ← Panics.authenticate decrypt raw
  let login ← sealCommand encrypt sessionKey loginRandom CMD_LOGIN
    (packLogin c.login c.password c.server)
  let (raw, s) ← exchange peer login s
  Panics.logIn decrypt sessionKey raw
  return (sessionKey, s)

/-! ## The server -/

/-- The command in an envelope that a server opens with this key. -/
def openCommand (key raw : Bytes) : Option Bytes :=
  if raw = packWire (raw.drop 8) then
    match decrypt key (raw.drop 8) with
    | .ok command => if 4 ≤ command.length then some command else none
    | .error _ => none
  else none

/-- A server with its session key, which stands behind 66 bytes of the authentication reply. -/
structure Server where
  key : Bytes
  key_length : key.length = 32
  front : Bytes
  front_length : front.length = 66
  back : Bytes
  authTag : UInt16
  loginTag : UInt16
  loginBody : Bytes

/-- How far a server has got with a client. -/
inductive Stage where
  | listening
  | keyed
  | opened (c : Credentials)
  deriving DecidableEq

/-- What a server makes of a message of the handshake. -/
def Server.answer (server : Server) : Stage → Bytes → Option (Bytes × Stage)
  | .listening, raw => do
    let command ← openCommand decrypt STATIC_KEY raw
    if cmdIdOf command = CMD_AUTH then
      let body := server.front ++ server.key ++ server.back
      return (packWire (encrypt STATIC_KEY (packResponse server.authTag CMD_AUTH 0 body)), .keyed)
    else none
  | .keyed, raw => do
    let command ← openCommand decrypt server.key raw
    if cmdIdOf command = CMD_LOGIN ∧ (command.drop 4).length = LOGIN_SIZE then
      return (packWire (encrypt server.key
        (packResponse server.loginTag CMD_LOGIN 0 server.loginBody)),
        .opened (readLogin (command.drop 4)))
    else none
  | .opened _, _ => none

variable {encrypt decrypt}

theorem sealCommand_of_length {key : Bytes} (hkey : key.length = 32) (random cmdId : UInt16)
    (payload : Bytes) :
    sealCommand encrypt key random cmdId payload =
      .ok (packWire (encrypt key (buildCommand random cmdId payload))) := by
  rw [sealCommand, aesEncrypt_of_length hkey]
  rfl

theorem drop_buildCommand (random cmdId : UInt16) (payload : Bytes) :
    (buildCommand random cmdId payload).drop 4 = payload := by
  rw [buildCommand]
  exact List.drop_left' (by simp [LittleEndian.length_encode])

/-- A command that is sealed is opened again. -/
theorem openCommand_packWire (h : Inverts encrypt decrypt) {key : Bytes} (hkey : key.length = 32)
    {command : Bytes} (hcommand : 4 ≤ command.length) :
    openCommand decrypt key (packWire (encrypt key command)) = some command := by
  rw [openCommand, drop_packWire, if_pos rfl, h key command hkey]
  exact if_pos hcommand

/-- An answer that is sealed is read again. -/
theorem openReply_packWire (h : Inverts encrypt decrypt) {key : Bytes} (hkey : key.length = 32)
    (tag cmdId : UInt16) (resCode : UInt8) (body : Bytes) (bad : String) :
    openReply decrypt key (packWire (encrypt key (packResponse tag cmdId resCode body))) bad =
      .ok ⟨tag, cmdId, resCode, body⟩ := by
  rw [openReply, tail_of_le (by rw [length_packWire]; omega), ok_bind, drop_packWire,
    aesDecrypt_encrypt h hkey, ok_bind, response_eq, parseResponse_packResponse, ok_bind]
  rfl

/-- The authentication reply of the server. -/
def Server.authReply (server : Server) : Bytes :=
  packResponse server.authTag CMD_AUTH 0 (server.front ++ server.key ++ server.back)

theorem answer_auth (h : Inverts encrypt decrypt) (server : Server) (random : UInt16)
    (payload : Bytes) :
    server.answer encrypt decrypt .listening
        (packWire (encrypt STATIC_KEY (buildCommand random CMD_AUTH payload))) =
      some (packWire (encrypt STATIC_KEY server.authReply), .keyed) := by
  have hkey : STATIC_KEY.length = 32 := rfl
  simp only [Server.answer, openCommand_packWire h hkey (four_le_length_buildCommand _ _ _),
    Option.bind_eq_bind, Option.bind_some, cmdIdOf_buildCommand, if_pos]
  rfl

theorem answer_login (h : Inverts encrypt decrypt) (server : Server) (random : UInt16)
    {payload : Bytes} (hpayload : payload.length = LOGIN_SIZE) :
    server.answer encrypt decrypt .keyed
        (packWire (encrypt server.key (buildCommand random CMD_LOGIN payload))) =
      some (packWire (encrypt server.key
        (packResponse server.loginTag CMD_LOGIN 0 server.loginBody)),
          .opened (readLogin payload)) := by
  simp only [Server.answer, openCommand_packWire h server.key_length
    (four_le_length_buildCommand _ _ _), Option.bind_eq_bind, Option.bind_some,
    cmdIdOf_buildCommand, drop_buildCommand, hpayload, and_self, if_pos]
  rfl

/-- The client takes the session key out of the authentication reply. -/
theorem authenticate_authReply (h : Inverts encrypt decrypt) (server : Server) :
    Panics.authenticate decrypt (packWire (encrypt STATIC_KEY server.authReply)) =
      .ok server.key := by
  have hbody : (server.front ++ server.key ++ server.back).length = 98 + server.back.length := by
    rw [List.length_append, List.length_append, server.front_length, server.key_length]
  have hkey : slice (server.front ++ server.key ++ server.back) 66 (98 - 66) = server.key := by
    rw [slice, List.append_assoc, List.drop_left' server.front_length,
      List.take_left' server.key_length]
  rw [Panics.authenticate, if_neg (by rw [length_packWire]; omega), Server.authReply,
    openReply_packWire h rfl, ok_bind, if_neg, range_of_le (by omega) (by rw [hbody]; omega), hkey]
  rw [hbody]
  intro hrefused
  rcases hrefused with hcode | hshort
  · exact hcode rfl
  · omega

/-- The client has the session key of the server, and the server has read what the client was
called with. -/
theorem dial_agrees (h : Inverts encrypt decrypt) (server : Server)
    (authRandom loginRandom : UInt16) {c : Credentials} (hfit : c.Fit) :
    dial encrypt decrypt (server.answer encrypt decrypt) authRandom loginRandom c .listening =
      .ok (server.key, .opened c) := by
  have hlogin : Panics.logIn decrypt server.key (packWire (encrypt server.key
      (packResponse server.loginTag CMD_LOGIN 0 server.loginBody))) = .ok () := by
    rw [Panics.logIn, openReply_packWire h server.key_length, ok_bind, if_neg]
    · rfl
    · intro hrefused
      rcases hrefused with hid | hcode
      · exact hid rfl
      · exact hcode rfl
  rw [dial, sealCommand_of_length rfl, ok_bind, exchange, answer_auth h, ok_bind]
  simp only
  rw [authenticate_authReply h, ok_bind, sealCommand_of_length server.key_length, ok_bind, exchange,
    answer_login h server loginRandom (length_packLogin hfit), ok_bind]
  simp only
  rw [hlogin, ok_bind, readLogin_packLogin hfit]
  rfl

end Dial

/-! ## Known ciphertexts -/

/-- A plaintext and its ciphertext under a key. -/
structure Known where
  key : Bytes
  plaintext : Bytes
  ciphertext : Bytes

section Known

variable (table : List Known)

/-- A cipher with the ciphertexts of the table.  It leaves everything else in the clear, behind a
byte that no ciphertext of the table begins with. -/
def tableEncrypt (key plaintext : Bytes) : Bytes :=
  match table.find? fun known => known.key = key ∧ known.plaintext = plaintext with
  | some known => known.ciphertext
  | none => 0 :: plaintext

def tableDecrypt (key ciphertext : Bytes) : Except String Bytes :=
  match table.find? fun known => known.key = key ∧ known.ciphertext = ciphertext with
  | some known => .ok known.plaintext
  | none =>
    match ciphertext with
    | 0 :: plaintext => .ok plaintext
    | _ => .error "aes decrypt"

/-- The first bytes tell the ciphertexts of the table from each other and from the rest. -/
theorem inverts_table
    (h : (some 0 :: table.map fun known => known.ciphertext.head?).Nodup) :
    Inverts (tableEncrypt table) (tableDecrypt table) := by
  obtain ⟨hzero, hnodup⟩ := List.nodup_cons.mp h
  intro key plaintext _
  rw [tableEncrypt]
  cases hfound : table.find? fun known => known.key = key ∧ known.plaintext = plaintext with
  | none =>
    have hmissing : (table.find? fun known =>
        known.key = key ∧ known.ciphertext = 0 :: plaintext) = none := by
      rw [List.find?_eq_none]
      intro known hknown hmatch
      have hhead := congrArg List.head? (of_decide_eq_true hmatch).2
      exact hzero (List.mem_map.mpr ⟨known, hknown, hhead⟩)
    simp only [tableDecrypt, hmissing]
  | some known =>
    have hmem : known ∈ table := List.mem_of_find?_eq_some hfound
    have hmatch : known.key = key ∧ known.plaintext = plaintext := by
      simpa using List.find?_some hfound
    simp only [tableDecrypt]
    cases hback : table.find? fun other =>
        other.key = key ∧ other.ciphertext = known.ciphertext with
    | none =>
      have hfalse := List.find?_eq_none.mp hback known hmem
      exact absurd (decide_eq_true ⟨hmatch.1, rfl⟩) hfalse
    | some other =>
      have hsame : other.key = key ∧ other.ciphertext = known.ciphertext := by
        simpa using List.find?_some hback
      have hother : other = known :=
        List.inj_on_of_nodup_map hnodup (List.mem_of_find?_eq_some hback) hmem
          (congrArg List.head? hsame.2)
      simp only [hother, hmatch.2]

end Known

/-- The blocks of a ciphertext. -/
def blocks (ciphertext : List Nat) : Bytes :=
  ciphertext.flatMap fun block => (LittleEndian.encode 16 block).reverse

def sampleCredentials : Credentials := ⟨12345678, "secret", "Demo"⟩

def sampleServer : Server where
  key := (List.range 32).map fun n => UInt8.ofNat (0x40 + n)
  key_length := rfl
  front := List.replicate 66 0
  front_length := rfl
  back := []
  authTag := 1
  loginTag := 2
  loginBody := []

/-- The four messages of a login, under AES-256-CBC. -/
def sampleTable : List Known :=
  [⟨STATIC_KEY, buildCommand 0x1234 CMD_AUTH (List.replicate 64 0), blocks [
    0x6be6fed758a52f800827001cc2a3663a, 0xc2963ab42445079ffdecf20127b04dfe,
    0x67abb1ca275b3f715d0ce395bedeabc4, 0xd313cd1494354e6a126fc497844169e2,
    0x04b79c8c275b481eac9262d874e4688a]⟩,
  ⟨STATIC_KEY, sampleServer.authReply, blocks [
    0xc44cc9ea2542392a9e435c62b344d47f, 0x1c8a4d7154c66cd44cce3527d9cbf030,
    0x70128fbe12dfdfcb06b9f45f785d8c4a, 0x76d81cbc0daa7845fa8f2df5656a2275,
    0x109af4b5bca63ee9afdaa66833d80b4c, 0xbf6e6dffd99b535c6885d74e41e8f81c,
    0x76d4fdd306dc0134687bcec3567c92eb]⟩,
  ⟨sampleServer.key, buildCommand 0x5678 CMD_LOGIN (packLogin 12345678 "secret" "Demo"), blocks [
    0x4d63d179f5d61f638f89d40a08009937, 0x193ee3445250a0e4b515ffa3e300518a,
    0xf4cf6612284a42f1b7a2859884aae3e7, 0x16b29cc05d162ae06b86bc5632214729,
    0x482c9f9515f73c97bc766c7dce811a02, 0x86ad2bad01bff86e0171e14d62a96c93,
    0xfafe7b938501e4912a8e7b57b135273b, 0x6eb03618ae68e689e0b48946bb11ecb9,
    0x1bae933b75fa24a7a8bb31e9b7077227, 0x5796aef32702b19ffb49f69609b27d78,
    0x519c168eee324beae228b0d708deb2cb, 0x8bd8e964651bae590388cdfda7b8ce81,
    0x0fdf42dc51d79803e985af4ec31604e2, 0x13b6fc669243aaeb90017f7bcef62478,
    0x8369b27f4acb2f09bfe8498476670023, 0x7ca3f3d73a29b9a88850abcd2d2e671f,
    0xca3443efdda07a4740a003f60619dc1d, 0xed8be964171bdbec9d647473f4023ddf,
    0x7202e4d28dd93aeaf362886511fb2bcb, 0x04a642ef103989b462c78afb52e35ca7,
    0x240a2ca035514f16da03c573b4380522, 0x34368df8662fa14bbc851e2cfd1ad81d,
    0x07c5ceaf8670e71d8fad04c291b430ee, 0x8daad28e088a1226f5b218e4b838dca2,
    0xc241605f109026bf73ce78c0b614cdf3, 0x6d60e0c138ac8eb09694ad1a2020bfd8,
    0x83a7bd98f03fb070e31389883b4dc5d6, 0xc43fc9c644efc616fd5e8c4cfbe12538,
    0x74f9aedb0a18413a3b0324241f161164, 0x933a88125822e836f98a8180d56918df,
    0xaa73c52070e8bea06285d4e4690b3355, 0xcf0ec8dde20d82e8f3448ffa54cbd432,
    0x9adf6a4138697a266acf2909103a8816, 0xf749a01ef8d16a7888162d88b0ed6ded,
    0x7ca1f4c1e8b1752a3b73649d32ce2b7d, 0x40b4e74b4ce00e364af2caa36d2e7bb3,
    0x576630b326e1a95aee6ad554cb4059b3, 0xdd7d91ef402c0e2bc5ee80bfc54d7d61,
    0x0cb5665e1413aa73ad93cda430877523, 0xd96193170245287c089a79d713196b86,
    0xb41661f28cbae7e37c6573a20c9cbc7a, 0x19e31d4e085457e149a2bbb23c33c25d,
    0xbc2ad7979787effbeecfae5d7f438b20, 0xc1f601cd459ecdffe7eac135d0fe7c8d,
    0x2a82eb558f16ce1d83239c936ab916ac, 0x1c94244af04a69f0f6f3df6ed90b054b,
    0x031c84b8b0487328a2ac828afae686c8, 0x3ba6d4793a69b4c961dff24534f496df,
    0x58a7a7f6001d68d1c328f7fbddee15a9, 0x410ad4264ab8a35e81ae7069996ad7e2,
    0x5a692c52be6f540cc4b914f8ce9eabda, 0x0f284b676bde76f14a10c94684e6e56f,
    0xc01f2066bc1681a414c9570e0d634949, 0x4c4eb1aac4b83fbf572c29abe121eb85,
    0x19361c6159724a62b7f5fa714040b69e, 0xba607411314ec23bdbb0b4debdd6e489,
    0x8aca8529e45dee5dd91a6bfc24f16c1a, 0x68dc189d4ae056929cb53635e654bf26]⟩,
  ⟨sampleServer.key, packResponse 2 CMD_LOGIN 0 [], blocks [
    0xe876fd8f0fee1a51cfeabb91b416dc04]⟩]

theorem dial_agrees_sampleTable :
    dial (tableEncrypt sampleTable) (tableDecrypt sampleTable)
        (sampleServer.answer (tableEncrypt sampleTable) (tableDecrypt sampleTable)) 0x1234 0x5678
        sampleCredentials .listening =
      .ok (sampleServer.key, .opened sampleCredentials) :=
  dial_agrees (inverts_table sampleTable (by decide)) sampleServer 0x1234 0x5678
    ⟨by decide, by decide, by decide⟩

end Mt5Open.Webterm.Login

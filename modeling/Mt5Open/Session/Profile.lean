import Mt5Open.Native.Auth

/-!
# The login profile

A profile names the account that a login must reach, and the builds that it was
made for.  The answers to the challenge programs come from the authentication
result of a login.
-/

namespace Mt5Open.Native

open Lib

structure ProfileAccount where
  login : Nat
  mode : String
  server : String
  readOnly : Bool
  deriving DecidableEq, Repr

structure LoginProfile where
  clientBuild : Nat
  serverBuild : Nat
  environment : String
  account : ProfileAccount
  deriving DecidableEq, Repr

namespace LoginProfile

/-- `LoginProfile::account_mode`. -/
def accountMode (profile : LoginProfile) (login : Nat) : Result String :=
  if profile.account.login ≠ login then reject "native profile belongs to a different account"
  else .ok profile.account.mode

/-- `LoginProfile::read_only`. -/
def readOnly (profile : LoginProfile) (login : Nat) : Result Bool := do
  let _ ← profile.accountMode login
  return profile.account.readOnly

/-- The answer to the one program with this tag. -/
def answer (result : AuthResult) (tag : UInt8) (version : Version) : Result UInt64 :=
  match result.tlvs.filter (·.1 = tag) with
  | [] => reject s!"missing authentication tag {tag}"
  | [(_, program)] => solve version program LOGIN_SEED
  | _ => reject s!"duplicate authentication tag {tag}"

/-- `LoginProfile::answers`. -/
def answers (profile : LoginProfile) (clientBuild : Nat) (result : AuthResult) :
    Result (UInt64 × UInt64) :=
  if (result.tlvs.filter (·.1 = 0)).map Prod.snd ≠ [utf16Bytes profile.account.server] then
    reject "native login profile does not match the server identity"
  else if clientBuild ≠ CLIENT_BUILD ∨ profile.clientBuild ≠ clientBuild ∨
      result.serverBuild ≠ profile.serverBuild ∨ result.secondaryBuild ≠ profile.serverBuild then
    reject "native login profile does not match the client/server build"
  else do
    let answer28 ← answer result 28 .tag28
    let answer35 ← answer result 35 .tag35
    return (answer28, answer35)

end LoginProfile

end Mt5Open.Native

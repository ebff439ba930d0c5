import Ticketing.Core.Config
import Ticketing.Model.Uuid
import Ticketing.Model.World

/-!
# `core/security.py`, `repositories/refresh_token.py` and `services/auth.py`

Signed tokens and the refresh tokens stored for them.

* `register`, `login`, `refresh`, `logout`, `changePassword` and `authenticateAccessToken` are the
  methods of these names; `issuePair` is `_issue_pair`, `getForUpdate` is `get_for_update`.
* `Security` is PyJWT and the password hash, as parameters. A token's text is what PyJWT makes of
  its claims, whose times are whole seconds; `TokenCodec.decode` checks what `decode` checks of
  them.
* `revokeAllActive` is `revoke_all_active`: one `UPDATE`, which changes the rows it finds when it
  starts, as far as they still match when it has their locks. It is sent when it is called, while
  the changes of an object wait for the commit that flushes them: so `change_password` updates the
  user's row after the tokens.
* `rotate` is the exchange of a token: the old one is revoked and names the new one.

Left out: `verify_dummy`, which only takes time, and the limit on the rate of logins
(`Cache/RateLimit.lean`).
-/

namespace Ticketing

open Lib.Text (strip)

inductive TokenType
  | access
  | refresh
  deriving DecidableEq, Repr

def TokenType.value : TokenType → String
  | access => "access"
  | refresh => "refresh"

/-- The claims of a signed token. -/
structure TokenPayload where
  sub : String
  jti : String
  type : String
  iat : Nat
  exp : Nat
  deriving DecidableEq, Repr

/-- What the service takes from PyJWT and pwdlib as they are. -/
structure Security where
  /-- `jwt.encode(payload, secret_key, algorithm="HS256")`. -/
  encode : String → TokenPayload → String
  /-- What `jwt.decode` reads from a text it finds signed with the key and complete. -/
  payload : String → String → Option TokenPayload
  /-- `PasswordHash.hash(password)`, with the salt it draws. -/
  hash : UUID → String → String
  /-- `PasswordHash.verify(password, hash)`. -/
  verify : String → String → Bool

structure EncodedToken where
  value : String
  tokenId : UUID
  expiresAt : Time
  deriving DecidableEq, Repr

structure TokenClaims where
  subject : UUID
  tokenId : UUID
  tokenType : TokenType
  expiresAt : Time
  deriving DecidableEq, Repr

structure TokenPair where
  accessToken : String
  refreshToken : String
  expiresIn : Nat
  deriving DecidableEq, Repr

/-- `hash_token`. -/
def hashToken (P : Platform) (token : String) : String := P.sha256Hex token.toUTF8

namespace TokenCodec

variable (X : Security) (C : Settings)

/-- The claims of a text, whatever the time. -/
def claims (token : String) (expectedType : TokenType) : Option TokenClaims := do
  let payload ← X.payload C.authSecretKey token
  if payload.type = expectedType.value then
    let subject ← UUID.parse payload.sub
    let tokenId ← UUID.parse payload.jti
    some ⟨subject, tokenId, expectedType, seconds payload.exp⟩
  else none

/-- `TokenCodec.decode`; `none` is a `TokenValidationError`. -/
def decode (now : Time) (token : String) (expectedType : TokenType) : Option TokenClaims := do
  let payload ← X.payload C.authSecretKey token
  if now < seconds payload.iat ∨ seconds payload.exp ≤ now then none
  else claims X C token expectedType

/-- `TokenCodec._encode`. -/
def encode (userId : UUID) (tokenType : TokenType) (ttl : Time) : Service EncodedToken := do
  let now ← Service.now
  let expiresAt := now + ttl
  let tokenId ← Service.uuid4
  let value := X.encode C.authSecretKey
    { sub := userId.str, jti := tokenId.str, type := tokenType.value,
      iat := now / seconds 1, exp := expiresAt / seconds 1 }
  pure ⟨value, tokenId, expiresAt⟩

end TokenCodec

namespace AuthService

variable (P : Platform) (X : Security) (C : Settings)

/-- `RefreshTokenRepository.get_for_update`. -/
def getForUpdate (tokenId : UUID) : Service (Option RefreshToken) :=
  Service.selectForUpdate .refreshTokens fun db => db.get .refreshTokens tokenId

/-- `RefreshTokenRepository.revoke_all_active`. -/
def revokeAllActive (userId : UUID) (revokedAt : Time) : Service Unit := do
  let found ← Service.select fun db =>
    ((db .refreshTokens).filter (·.isActive userId)).map (·.id)
  -- a row another transaction has revoked meanwhile is left out
  let ids ← Service.select fun db =>
    ((db .refreshTokens).filter fun t => t.isActive userId && t.id ∈ found).map (·.id)
  Service.perform (Op.write (.revokeAllActive userId revokedAt 0 ids))

/-- The row `_issue_pair` adds. -/
def issued (userId : UUID) (token : EncodedToken) : RefreshToken where
  id := token.tokenId
  userId := userId
  tokenHash := hashToken P token.value
  expiresAt := token.expiresAt
  revokedAt := none
  replacedById := none
  createdAt := 0
  updatedAt := 0

/-- `_issue_pair`: the pair, and the row added to the session. -/
def issuePair (userId : UUID) : Service (TokenPair × RefreshToken) := do
  let accessToken ← TokenCodec.encode X C userId .access (seconds (C.accessTokenTtlMinutes * 60))
  let refreshToken ← TokenCodec.encode X C userId .refresh
    (seconds (C.refreshTokenTtlDays * 24 * 60 * 60))
  pure (⟨accessToken.value, refreshToken.value, C.accessTokenTtlMinutes * 60⟩,
    issued P userId refreshToken)

/-- `_decode_token`. -/
def decodeToken (rawToken : String) (expectedType : TokenType) : Service TokenClaims := do
  let now ← Service.now
  match TokenCodec.decode X C now rawToken expectedType with
  | some claims => pure claims
  | none => throw .invalidToken

/-- The stored token is the one presented. -/
def Presented (claims : TokenClaims) (rawToken : String) (stored : RefreshToken) : Prop :=
  stored.userId = claims.subject ∧ stored.tokenHash = hashToken P rawToken

instance (claims : TokenClaims) (rawToken : String) (stored : RefreshToken) :
    Decidable (Presented P claims rawToken stored) := inferInstanceAs (Decidable (_ ∧ _))

/-- The user `register` adds. -/
def newUser (id : UUID) (email passwordHash : String) : User where
  id
  email
  passwordHash
  isActive := true
  createdAt := 0
  updatedAt := 0

def register (email password : String) : Service User := do
  let normalizedEmail := P.lower (strip email)
  let existing ← Service.select fun db => (db .users).find? (·.email = normalizedEmail)
  if existing.isSome then throw .emailAlreadyRegistered
  let salt ← Service.uuid4
  let id ← Service.uuid4
  Service.exceptIntegrityError
    (do
      Service.insert .users (newUser id normalizedEmail (X.hash salt password))
      Service.commit)
    (do Service.rollback; throw .emailAlreadyRegistered)
  Service.refresh .users id

def login (email password : String) : Service TokenPair := do
  let email := P.lower (strip email)
  match ← Service.select fun db => (db .users).find? fun u => u.email = email with
  | none => throw .invalidCredentials -- `verify_dummy` only takes its time
  | some user =>
    if ¬X.verify password user.passwordHash ∨ ¬user.isActive then throw .invalidCredentials
    else
      let (pair, token) ← issuePair P X C user.id
      Service.insert .refreshTokens token
      Service.commit
      pure pair

/-- The second half of `refresh`, for a token that is neither expired nor revoked. -/
def rotate (stored : RefreshToken) : Service TokenPair := do
  match ← Service.get .users stored.userId with
  | none => throw .invalidToken
  | some user =>
    if ¬user.isActive then throw .invalidToken
    else
      let now ← Service.now
      let (pair, token) ← issuePair P X C user.id
      let replacement ← decodeToken X C pair.refreshToken .refresh
      Service.insert .refreshTokens token
      Service.update .refreshTokens stored
        { stored with revokedAt := some now, replacedById := some replacement.tokenId }
      Service.commit
      pure pair

def refresh (rawToken : String) : Service TokenPair := do
  let claims ← decodeToken X C rawToken .refresh
  match ← getForUpdate claims.tokenId with
  | none => throw .invalidToken
  | some stored =>
    if ¬Presented P claims rawToken stored then throw .invalidToken
    else
      let now ← Service.now
      if stored.expiresAt ≤ now then throw .invalidToken
      else if stored.revokedAt.isSome then
        if stored.replacedById.isSome then
          let now ← Service.now
          revokeAllActive stored.userId now
          Service.commit
          throw .invalidToken
        else throw .invalidToken
      else rotate P X C stored

def authenticateAccessToken (rawToken : String) : Service User := do
  let claims ← decodeToken X C rawToken .access
  match ← Service.get .users claims.subject with
  | none => throw .invalidToken
  | some user => if user.isActive then pure user else throw .invalidToken

def logout (rawToken : String) : Service Unit := do
  let claims ← decodeToken X C rawToken .refresh
  match ← getForUpdate claims.tokenId with
  | none => throw .invalidToken
  | some stored =>
    if ¬Presented P claims rawToken stored then throw .invalidToken
    else if stored.revokedAt.isNone then
      let now ← Service.now
      Service.update .refreshTokens stored { stored with revokedAt := some now }
      Service.commit
    else pure ()

/-- `change_password` of a user loaded in the same session. Sessions do not flush before a query, so
the row of `users` is written by the flush of the commit, after `revoke_all_active`. -/
def changePassword (user : User) (currentPassword newPassword : String) : Service Unit := do
  if ¬X.verify currentPassword user.passwordHash then throw .invalidCurrentPassword
  else if X.verify newPassword user.passwordHash then throw .passwordUnchanged
  else
    let salt ← Service.uuid4
    let now ← Service.now
    revokeAllActive user.id now
    Service.update .users user { user with passwordHash := X.hash salt newPassword }
    Service.commit

end AuthService

end Ticketing

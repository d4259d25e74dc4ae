import Librtbit.Core.Duration
import Librtbit.Core.Metainfo
import Librtbit.Machinery.Run

/-!
# Http/Auth — who may use the HTTP API

Three things let a request in: the user name and password, a bearer token that a login, a setup or a
refresh gave out, and a session of the qBittorrent-compatible API.  They are kept in four maps, each
behind a lock of its own, and a handler takes a lock, lets it go and goes on: `Request` is where a
request stands between two of its critical sections, and `Request.step` makes the next one.
Everything that is not decided here comes with the label: the clock, the random tokens and whether
the credentials could be saved.

`TokenEntry.checked`, `Session.checked`, `redeemed`, `revokedAt` and `setups` are not kept by the
program.  They record what happened: whether a token or a session was given for good credentials,
how often a refresh token was exchanged, how often it had been when it was logged out, and how many
setups stored credentials.
-/

namespace Librtbit.Http

open Function List

/-- A random string: an access token, a refresh token or the id of a session. -/
abbrev Token : Type := ByteBuf

/-! ## Credentials -/

/-- `constant_time_eq`. -/
def constantTimeEq (a b : ByteBuf) : Bool :=
  if a.length ≠ b.length then false
  else (a.zip b).foldl (fun acc x => acc ||| (x.1 ^^^ x.2)) 0 == 0

structure StoredCredentials where
  username : ByteBuf
  password : ByteBuf
  deriving DecidableEq

/-- The comparison of `CredentialStore::validate`, and of every check against `basic_auth`. -/
def StoredCredentials.validate (creds : StoredCredentials) (username password : ByteBuf) : Bool :=
  constantTimeEq username creds.username && constantTimeEq password creds.password

/-- What of the options bears on authentication: the user and password of the environment, and
whether there is a token store and a credential store. -/
structure HttpApiOptions where
  basicAuth : Option StoredCredentials := none
  tokenStore : Bool := true
  credentialStore : Bool := true

/-- The check against `basic_auth`. -/
def HttpApiOptions.validateEnv (opts : HttpApiOptions) (username password : ByteBuf) : Bool :=
  opts.basicAuth.any fun creds => creds.validate username password

/-! ## The stores -/

/-- 15 minutes. -/
def accessTokenTtl : Duration := 15 * 60 * 10 ^ 9

/-- 30 days. -/
def refreshTokenTtl : Duration := 30 * 24 * 60 * 60 * 10 ^ 9

structure TokenEntry where
  expiresAt : Instant
  /-- The token was given for credentials that were good then, or by the setup that stored them. -/
  checked : Bool

/-- A session of the qBittorrent-compatible API. -/
structure Session where
  created : Instant
  /-- The session was given for credentials that were good then. -/
  checked : Bool

structure Stores where
  accessTokens : Token → Option TokenEntry := fun _ => none
  refreshTokens : Token → Option TokenEntry := fun _ => none
  credentials : Option StoredCredentials := none
  sessions : Token → Option Session := fun _ => none
  /-- How often each refresh token was exchanged for new tokens. -/
  redeemed : Token → ℕ := fun _ => 0
  /-- How often it had been when it was first logged out. -/
  revokedAt : Token → Option ℕ := fun _ => none
  /-- How many setups stored their credentials. -/
  setups : ℕ := 0

/-- The entries that `retain` keeps. -/
def retainUnexpired (tokens : Token → Option TokenEntry) (now : Instant) :
    Token → Option TokenEntry :=
  fun token => (tokens token).filter fun entry => now < entry.expiresAt

/-- The token is there and has not expired. -/
def isUnexpired (tokens : Token → Option TokenEntry) (token : Token) (now : Instant) : Bool :=
  (tokens token).any fun entry => now < entry.expiresAt

namespace Stores

variable (s : Stores)

/-- What the credential store holds, if there is one. -/
def stored (opts : HttpApiOptions) : Option StoredCredentials :=
  if opts.credentialStore then s.credentials else none

def hasCredentials (opts : HttpApiOptions) : Bool := (s.stored opts).isSome

/-- `CredentialStore::validate`. -/
def validate (opts : HttpApiOptions) (username password : ByteBuf) : Bool :=
  (s.stored opts).any fun creds => creds.validate username password

/-- **The credentials in force**: the stored ones, and those of the environment as long as none are
stored. -/
def current (opts : HttpApiOptions) : Option StoredCredentials := (s.stored opts).or opts.basicAuth

/-- The user name and password are those in force. -/
def isCurrent (opts : HttpApiOptions) (username password : ByteBuf) : Bool :=
  decide (s.current opts = some ⟨username, password⟩)

/-- `validate_session`: sessions expire after an hour. -/
def validateSession (sid : Token) (now : Instant) : Bool :=
  (s.sessions sid).any fun session => decide ((now - session.created) / 10 ^ 9 < 3600)

/-- The first write of `cleanup_expired`. -/
def cleanupAccess (now : Instant) : Stores :=
  { s with accessTokens := retainUnexpired s.accessTokens now }

/-- The second one. -/
def cleanupRefresh (now : Instant) : Stores :=
  { s with refreshTokens := retainUnexpired s.refreshTokens now }

/-- The first write of `create_tokens`. -/
def insertAccess (token : Token) (now : Instant) (checked : Bool) : Stores :=
  { s with
    accessTokens := update s.accessTokens token (some ⟨now + accessTokenTtl, checked⟩) }

/-- The second one. -/
def insertRefresh (token : Token) (now : Instant) (checked : Bool) : Stores :=
  { s with
    refreshTokens := update s.refreshTokens token (some ⟨now + refreshTokenTtl, checked⟩) }

/-- The removal of `refresh`, after which the token is exchanged. -/
def redeem (token : Token) : Stores :=
  { s with
    refreshTokens := update s.refreshTokens token none
    redeemed := update s.redeemed token (s.redeemed token + 1) }

/-- `revoke_refresh_token`. -/
def revokeRefreshToken (token : Token) : Stores :=
  { s with
    refreshTokens := update s.refreshTokens token none
    revokedAt := update s.revokedAt token
      (some ((s.revokedAt token).getD (s.redeemed token))) }

/-- The write of `set_credentials`, by a setup or by a change. -/
def setCredentials (creds : StoredCredentials) (bySetup : Bool) : Stores :=
  { s with
    credentials := some creds
    setups := if bySetup then s.setups + 1 else s.setups }

/-- `create_session`. -/
def createSession (sid : Token) (now : Instant) (checked : Bool) : Stores :=
  { s with sessions := update s.sessions sid (some ⟨now, checked⟩) }

/-- `remove_session`. -/
def removeSession (sid : Token) : Stores := { s with sessions := update s.sessions sid none }

end Stores

/-! ## Requests -/

structure TokenResponse where
  accessToken : Token
  refreshToken : Token
  tokenType : String := "Bearer"
  expiresIn : ℕ := accessTokenTtl / 10 ^ 9
  deriving DecidableEq

inductive Response where
  | ok
  | noContent
  | tokens (tokens : TokenResponse)
  /-- With the session in a cookie. -/
  | session (sid : Token)
  | text (text : String)
  /-- Whatever the rest of the API answers. -/
  | served
  | error (status : ℕ) (text : String)
  /-- `WWW-Authenticate: Basic realm="API"`. -/
  | authenticate
  /-- `ApiError::unauthorized`. -/
  | unauthorized
  deriving DecidableEq

/-- What the header `Authorization` holds. -/
inductive Authorization where
  /-- There is none, or none that can be decoded. -/
  | missing
  | bearer (token : Token)
  | basic (username password : ByteBuf)
  /-- `Basic`, but without a colon. -/
  | malformed
  deriving DecidableEq

/-- What stands behind the middleware. -/
inductive Handler where
  | logout (refreshToken : Token)
  | changeCredentials (currentPassword : ByteBuf) (newUsername newPassword : Option ByteBuf)
  | other
  deriving DecidableEq

/-- A request as it comes in. -/
inductive Call where
  | login (username password : ByteBuf)
  | refresh (refreshToken : Token)
  | setup (username password : ByteBuf)
  | guarded (auth : Authorization) (handler : Handler)
  | qbitLogin (username password : ByteBuf)
  /-- With the session in the cookies. -/
  | qbitLogout (sid : Option Token)
  | qbitGuarded (sid : Option Token)

/-- How far the middleware has come: of the API, and of the compatible one. -/
inductive Guard where
  | native (auth : Authorization)
  | bearer (token : Token)
  | basic (username password : ByteBuf)
  | qbit (sid : Option Token)
  | session (sid : Token)
  deriving DecidableEq

/-- Where a request stands, between two of its critical sections. -/
inductive Request where
  | login (username password : ByteBuf)
  | loginValidate (username password : ByteBuf)
  | cleanupAccess (checked : Bool)
  | cleanupRefresh (now : Instant) (checked : Bool)
  | createTokens (checked : Bool)
  | insertRefresh (tokens : TokenResponse) (now : Instant) (checked : Bool)
  | refresh (refreshToken : Token)
  | redeem (refreshToken : Token) (checked : Bool)
  | setup (username password : ByteBuf)
  | setCredentials (creds : StoredCredentials) (bySetup : Bool)
  | guard (g : Guard) (handler : Handler)
  | logout (refreshToken : Token)
  | changeCredentials (currentPassword : ByteBuf) (newUsername newPassword : Option ByteBuf)
  | qbitLogin (username password : ByteBuf)
  | qbitValidate (username password : ByteBuf)
  | createSession (checked : Bool)
  | qbitLogout (sid : Option Token)
  | done (response : Response)
  deriving DecidableEq

def Handler.start : Handler → Request
  | .logout refreshToken => .logout refreshToken
  | .changeCredentials currentPassword newUsername newPassword =>
    .changeCredentials currentPassword newUsername newPassword
  | .other => .done .served

def Call.start : Call → Request
  | .login username password => .login username password
  | .refresh refreshToken => .refresh refreshToken
  | .setup username password => .setup username password
  | .guarded auth handler => .guard (.native auth) handler
  | .qbitLogin username password => .qbitLogin username password
  | .qbitLogout sid => .qbitLogout sid
  | .qbitGuarded sid => .guard (.qbit sid) .other

/-! ## Critical sections -/

/-- What a critical section reads that the stores do not hold. -/
structure Input where
  now : Instant := 0
  /-- What `generate_token` draws for the access token, the refresh token or the session. -/
  accessToken : Token := []
  refreshToken : Token := []
  sid : Token := []
  /-- How saving the credentials went. -/
  saved : Except String Unit := .ok ()

inductive Verdict where
  | serve
  | refuse (response : Response)
  | next (g : Guard)
  deriving DecidableEq

/-- The middleware of the API and that of the compatible one, a read at a time. -/
def Guard.check (opts : HttpApiOptions) (s : Stores) (input : Input) : Guard → Verdict
  | .native auth =>
    -- if no credentials are configured anywhere, all requests are let through
    if !s.hasCredentials opts && opts.basicAuth.isNone then .serve
    else
      match auth with
      | .bearer token => if opts.tokenStore then .next (.bearer token) else .refuse .authenticate
      | .basic username password =>
        if s.hasCredentials opts then .next (.basic username password)
        else if opts.validateEnv username password then .serve
        else .refuse .unauthorized
      | .missing => .refuse .authenticate
      | .malformed => .refuse .unauthorized
  | .bearer token =>
    if isUnexpired s.accessTokens token input.now then .serve else .refuse .unauthorized
  | .basic username password =>
    if s.validate opts username password then .serve
    else if opts.validateEnv username password then .serve
    else .refuse .unauthorized
  | .qbit sid =>
    if !(opts.basicAuth.isSome || s.hasCredentials opts) then .serve
    else
      match sid with
      | some sid => .next (.session sid)
      | none => .refuse (.error 403 "Not authenticated")
  | .session sid =>
    if s.validateSession sid input.now then .serve else .refuse (.error 403 "Not authenticated")

/-- `h_auth_login`, once the credentials are compared. -/
def loginChecked (opts : HttpApiOptions) (valid checked : Bool) : Request :=
  if !valid then .done (.error 401 "invalid credentials")
  else if opts.tokenStore then .cleanupAccess checked
  else .done (.error 404 "token auth not configured")

/-- The compatible `h_auth_login`, once the credentials are compared. -/
def qbitLoginChecked (authOk checked : Bool) : Request :=
  if authOk then .createSession checked else .done (.error 403 "Fails.")

/-- The next critical section of a request, and what follows from it without a lock. -/
def Request.step (opts : HttpApiOptions) (s : Stores) (input : Input) :
    Request → Option (Stores × Request)
  | .login username password =>
    if opts.credentialStore then
      if s.hasCredentials opts then some (s, .loginValidate username password)
      else
        some (s, loginChecked opts (opts.validateEnv username password)
          (s.isCurrent opts username password))
    else if opts.basicAuth.isSome then
      some (s, loginChecked opts (opts.validateEnv username password)
        (s.isCurrent opts username password))
    else some (s, .done (.error 404 "authentication not configured"))
  | .loginValidate username password =>
    some (s, loginChecked opts (s.validate opts username password)
      (s.isCurrent opts username password))
  | .cleanupAccess checked =>
    some (s.cleanupAccess input.now, .cleanupRefresh input.now checked)
  | .cleanupRefresh now checked => some (s.cleanupRefresh now, .createTokens checked)
  | .createTokens checked =>
    some (s.insertAccess input.accessToken input.now checked,
      .insertRefresh ⟨input.accessToken, input.refreshToken, "Bearer", accessTokenTtl / 10 ^ 9⟩
        input.now checked)
  | .insertRefresh tokens now checked =>
    some (s.insertRefresh tokens.refreshToken now checked, .done (.tokens tokens))
  | .refresh token =>
    if opts.tokenStore then
      if isUnexpired s.refreshTokens token input.now then
        some (s, .redeem token ((s.refreshTokens token).any fun entry => entry.checked))
      else some (s, .done (.error 401 "invalid or expired refresh token"))
    else some (s, .done (.error 404 "token auth not configured"))
  | .redeem token checked => some (s.redeem token, .createTokens checked)
  | .setup username password =>
    if !opts.credentialStore then
      some (s, .done (.error 404 "credential management not available"))
    else if s.hasCredentials opts || opts.basicAuth.isSome then
      some (s, .done (.error 403 "credentials already configured"))
    else if username.isEmpty || password.isEmpty then
      some (s, .done (.error 400 "username and password are required"))
    else some (s, .setCredentials ⟨username, password⟩ true)
  | .setCredentials creds bySetup =>
    match input.saved with
    | .ok _ =>
      some (s.setCredentials creds bySetup,
        if bySetup && opts.tokenStore then .createTokens true else .done .ok)
    | .error e => some (s, .done (.error 500 ("failed to save credentials: " ++ e)))
  | .guard g handler =>
    match g.check opts s input with
    | .serve => some (s, handler.start)
    | .refuse response => some (s, .done response)
    | .next g' => some (s, .guard g' handler)
  | .logout token =>
    some (if opts.tokenStore then s.revokeRefreshToken token else s, .done .noContent)
  | .changeCredentials currentPassword newUsername newPassword =>
    if !opts.credentialStore then
      some (s, .done (.error 404 "credential management not available"))
    else
      match s.current opts with
      | none => some (s, .done (.error 404 "no credentials configured"))
      | some creds =>
        if !constantTimeEq currentPassword creds.password then
          some (s, .done (.error 401 "current password is incorrect"))
        else
          some (s, .setCredentials
            ⟨newUsername.getD creds.username, newPassword.getD creds.password⟩ false)
  | .qbitLogin username password =>
    if s.hasCredentials opts then some (s, .qbitValidate username password)
    else if opts.basicAuth.isSome then
      some (s, qbitLoginChecked (opts.validateEnv username password)
        (s.isCurrent opts username password))
    else some (s, qbitLoginChecked true (s.isCurrent opts username password))
  | .qbitValidate username password =>
    some (s, qbitLoginChecked (s.validate opts username password)
      (s.isCurrent opts username password))
  | .createSession checked =>
    some (s.createSession input.sid input.now checked, .done (.session input.sid))
  | .qbitLogout sid =>
    some (match sid with
      | some sid => s.removeSession sid
      | none => s, .done (.text "Ok."))
  | .done _ => none

/-! ## The server -/

/-- The stores and the requests, each under a number of its own. -/
structure Server where
  stores : Stores
  requests : ℕ → Option Request := fun _ => none

inductive Action where
  | arrive (id : ℕ) (call : Call)
  | proceed (id : ℕ) (input : Input)

namespace Server

/-- The server as it starts, with the credentials of its file. -/
def new (credentials : Option StoredCredentials) : Server where
  stores := { credentials }

/-- A request comes in, or one that is there takes its next critical section. -/
def step (opts : HttpApiOptions) (s : Server) : Action → Option Server
  | .arrive id call =>
    if (s.requests id).isNone then
      some { s with requests := update s.requests id (some call.start) }
    else none
  | .proceed id input =>
    (s.requests id).bind fun request =>
      (request.step opts s.stores input).map fun next =>
        { stores := next.1, requests := update s.requests id (some next.2) }

end Server

/-- A user of the runs below, and the password. -/
def alice : StoredCredentials := ⟨[97], [112]⟩

/-! ## What a step does -/

section Compare

/-- The accumulator of the comparison is zero when it was and no two bytes differ. -/
lemma foldl_xor_eq_zero (xs : List (UInt8 × UInt8)) (acc : UInt8) :
    xs.foldl (fun acc x => acc ||| (x.1 ^^^ x.2)) acc = 0 ↔ acc = 0 ∧ ∀ x ∈ xs, x.1 = x.2 := by
  induction xs generalizing acc with
  | nil => simp
  | cons x xs ih =>
    rw [foldl_cons, ih, UInt8.or_eq_zero_iff, UInt8.xor_eq_zero_iff, forall_mem_cons, and_assoc]

/-- **The comparison in constant time is equality.** -/
theorem constantTimeEq_iff {a b} : constantTimeEq a b ↔ a = b := by
  rw [constantTimeEq]
  split
  · next hlen =>
    refine iff_of_false Bool.false_ne_true ?_
    rintro rfl
    exact hlen rfl
  · next hlen =>
    rw [beq_iff_eq, foldl_xor_eq_zero]
    simp only [true_and]
    constructor
    · intro hall
      refine ext_getElem (not_not.mp hlen) fun i ha hb => ?_
      exact hall (a[i], b[i]) (mem_iff_getElem.mpr ⟨i, by simp [ha, hb], by simp⟩)
    · rintro rfl x hx
      obtain ⟨i, hi, rfl⟩ := mem_iff_getElem.mp hx
      simp

variable {username password : ByteBuf}

lemma StoredCredentials.validate_iff {creds : StoredCredentials} :
    creds.validate username password ↔ creds = ⟨username, password⟩ := by
  rw [validate, Bool.and_eq_true, constantTimeEq_iff, constantTimeEq_iff]
  constructor
  · rintro ⟨rfl, rfl⟩
    rfl
  · rintro rfl
    exact ⟨rfl, rfl⟩

lemma any_validate_iff {creds : Option StoredCredentials} :
    creds.any (·.validate username password) ↔ creds = some ⟨username, password⟩ := by
  simp only [Option.any_eq_true, StoredCredentials.validate_iff, exists_eq_right]

variable {opts : HttpApiOptions}

lemma HttpApiOptions.validateEnv_iff :
    opts.validateEnv username password ↔ opts.basicAuth = some ⟨username, password⟩ :=
  any_validate_iff

lemma Stores.validate_iff {s : Stores} :
    s.validate opts username password ↔ s.stored opts = some ⟨username, password⟩ :=
  any_validate_iff

end Compare

section Steps

variable {opts : HttpApiOptions} {s s' : Stores} {input : Input} {r r' : Request}

/-- The stores after a critical section: most of them only read. -/
def Request.write (opts : HttpApiOptions) (s : Stores) (input : Input) : Request → Stores
  | .cleanupAccess _ => s.cleanupAccess input.now
  | .cleanupRefresh now _ => s.cleanupRefresh now
  | .createTokens checked => s.insertAccess input.accessToken input.now checked
  | .insertRefresh tokens now checked => s.insertRefresh tokens.refreshToken now checked
  | .redeem token _ => s.redeem token
  | .setCredentials creds bySetup =>
    match input.saved with
    | .ok _ => s.setCredentials creds bySetup
    | .error _ => s
  | .logout token => if opts.tokenStore then s.revokeRefreshToken token else s
  | .createSession checked => s.createSession input.sid input.now checked
  | .qbitLogout (some sid) => s.removeSession sid
  | _ => s

/-- **What a critical section writes.** -/
theorem Request.step_write (h : r.step opts s input = some (s', r')) :
    s' = r.write opts s input := by
  have hread : ∀ {x}, some (s, x) = some (s', r') → s' = s :=
    fun hx => (Prod.mk.inj (Option.some.inj hx)).1.symm
  have hwrite : ∀ {t x}, some (t, x) = some (s', r') → s' = t :=
    fun hx => (Prod.mk.inj (Option.some.inj hx)).1.symm
  cases r with
  | login username password =>
    rw [step] at h
    split at h
    · split at h <;> exact hread h
    · split at h <;> exact hread h
  | loginValidate username password => exact hread h
  | cleanupAccess checked | cleanupRefresh now checked | createTokens checked
  | insertRefresh tokens now checked | redeem token checked | logout token
  | createSession checked => exact hwrite h
  | refresh token =>
    rw [step] at h
    split at h
    · split at h <;> exact hread h
    · exact hread h
  | setup username password | changeCredentials currentPassword newUsername newPassword =>
    rw [step] at h
    split at h
    · exact hread h
    · split at h
      · exact hread h
      · split at h <;> exact hread h
  | setCredentials creds bySetup =>
    rw [step] at h
    rw [write]
    cases hsaved : input.saved with
    | ok _ =>
      rw [hsaved] at h
      exact hwrite h
    | error e =>
      rw [hsaved] at h
      exact hread h
  | guard g handler =>
    rw [step] at h
    split at h <;> exact hread h
  | qbitLogin username password =>
    rw [step] at h
    split at h
    · exact hread h
    · split at h <;> exact hread h
  | qbitValidate username password => exact hread h
  | qbitLogout sid => cases sid <;> exact hwrite h
  | done response => cases h

end Steps

/-- **What a step of the server is.** -/
theorem Server.step_cases {opts} {s s' : Server} {a} (h : s.step opts a = some s') :
    (∃ id call, a = .arrive id call ∧
      s' = { s with requests := update s.requests id (some call.start) }) ∨
    ∃ id input r r', a = .proceed id input ∧ s.requests id = some r ∧
      r.step opts s.stores input = some (s'.stores, r') ∧
      s'.requests = update s.requests id (some r') := by
  cases a with
  | arrive id call =>
    rw [step] at h
    split at h
    · exact Or.inl ⟨id, call, rfl, (Option.some.inj h).symm⟩
    · cases h
  | proceed id input =>
    obtain ⟨r, hr, hstep⟩ := Option.bind_eq_some_iff.mp h
    obtain ⟨⟨stores, r'⟩, hr', rfl⟩ := Option.map_eq_some_iff.mp hstep
    exact Or.inr ⟨id, input, r, r', rfl, hr, hr', rfl⟩

end Librtbit.Http

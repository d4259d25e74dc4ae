import Librtbit.Http.Auth

/-!
# Http/Credentials — a change of credentials takes effect

Once there are credentials, what lets a request in should be the credentials in force, or a token or
session that was given out for such (`Guard.Presents`).  Every token is: they come from a login that
compared the credentials, from the setup that stored them, or from a token.  Two things are not.
Before there are credentials the compatible API gives a session to anyone, and keeps it afterwards;
and the middleware goes on accepting the credentials of the environment beside the stored ones, so
the password that was changed still works.  `servesChecked_of_sound` rules out the two.
-/

namespace Librtbit.Http

open Machinery Function Option

variable {opts : HttpApiOptions}

/-- **What a request must present**: the credentials in force, or a token or session that was given
out for good credentials. -/
def Guard.Presents (opts : HttpApiOptions) (s : Stores) : Guard → Prop
  | .native (.basic username password) => s.current opts = some ⟨username, password⟩
  | .basic username password => s.current opts = some ⟨username, password⟩
  | .bearer token => ∃ entry, s.accessTokens token = some entry ∧ entry.checked = true
  | .session sid => ∃ session, s.sessions sid = some session ∧ session.checked = true
  | _ => False

namespace Server

/-- **Once credentials are configured, a request is served only for what it presents.** -/
def ServesChecked (opts : HttpApiOptions) (s : Server) (a : Action) (_ : Server) : Prop :=
  ∀ id input g handler, a = .proceed id input → s.requests id = some (.guard g handler) →
    g.check opts s.stores input = .serve → (s.stores.current opts).isSome = true →
    g.Presents opts s.stores

/-- **No sessions without credentials, and no two credentials**: the compatible login comes when
credentials are configured, and when a user name and password are compared with the stored ones, the
environment has none or the same. -/
def sound (opts : HttpApiOptions) (s : Server) : Action → Bool
  | .arrive _ _ => true
  | .proceed id _ =>
    match s.requests id with
    | some (.qbitLogin _ _) => (s.stores.current opts).isSome
    | some (.guard (.basic _ _) _) =>
      opts.basicAuth.isNone || decide (s.stores.stored opts = opts.basicAuth)
    | _ => true

end Server

/-! ## Whatever is given out is checked -/

/-- The request is one that was let in for good credentials, if it gives out anything. -/
def Request.Checked : Request → Prop
  | .cleanupAccess checked => checked = true
  | .cleanupRefresh _ checked => checked = true
  | .createTokens checked => checked = true
  | .insertRefresh _ _ checked => checked = true
  | .redeem _ checked => checked = true
  | .createSession checked => checked = true
  | _ => True

structure Stores.Checked (s : Stores) : Prop where
  access : ∀ token entry, s.accessTokens token = some entry → entry.checked = true
  refresh : ∀ token entry, s.refreshTokens token = some entry → entry.checked = true
  session : ∀ sid session, s.sessions sid = some session → session.checked = true

structure Server.Checked (s : Server) : Prop where
  stores : s.stores.Checked
  requests : ∀ id r, s.requests id = some r → r.Checked

section Checks

variable {s : Stores} {username password : ByteBuf}

lemma Stores.isCurrent_iff :
    s.isCurrent opts username password ↔ s.current opts = some ⟨username, password⟩ :=
  decide_eq_true_iff

lemma Stores.isCurrent_of_validate (h : s.validate opts username password) :
    s.isCurrent opts username password := by
  rw [isCurrent_iff, current, validate_iff.mp h]
  rfl

lemma Stores.isCurrent_of_validateEnv (hnone : s.hasCredentials opts = false)
    (h : opts.validateEnv username password) : s.isCurrent opts username password := by
  have hstored : s.stored opts = none := by
    exact not_isSome_iff_eq_none.mp (Bool.eq_false_iff.mp hnone)
  rw [isCurrent_iff, current, hstored, HttpApiOptions.validateEnv_iff.mp h]
  rfl

lemma checked_loginChecked {valid checked} (h : valid = true → checked = true) :
    (loginChecked opts valid checked).Checked := by
  rw [loginChecked]
  cases valid with
  | false => exact trivial
  | true =>
    rw [h rfl, Bool.not_true, if_neg Bool.false_ne_true]
    split
    · rfl
    · exact trivial

lemma checked_qbitLoginChecked {authOk checked} (h : authOk = true → checked = true) :
    (qbitLoginChecked authOk checked).Checked := by
  cases authOk with
  | false => exact trivial
  | true => exact h rfl

lemma Handler.checked_start (handler : Handler) : handler.start.Checked := by
  cases handler <;> exact trivial

lemma Call.checked_start (call : Call) : call.start.Checked := by
  cases call <;> exact trivial

end Checks

section Steps

variable {s s' : Stores} {input : Input} {r r' : Request}

/-- An entry of a map is the new one or was there before. -/
lemma update_cases {α : Type*} {tokens} {token t : Token} {entry x : α}
    (h : update tokens token (some entry) t = some x) : x = entry ∨ tokens t = some x := by
  rcases eq_or_ne t token with rfl | hne
  · rw [update_self] at h
    exact Or.inl (Option.some.inj h).symm
  · rw [update_of_ne hne] at h
    exact Or.inr h

/-- An entry that is left was there before. -/
lemma of_update_none {α : Type*} {tokens} {token t : Token} {x : α}
    (h : update tokens token none t = some x) : tokens t = some x := by
  rcases eq_or_ne t token with rfl | hne
  · rw [update_self] at h
    cases h
  · rwa [update_of_ne hne] at h

variable (h : s.Checked)
include h

/-- **Only checked requests put anything into the stores.** -/
theorem Stores.Checked.write (hr : r.Checked) : (r.write opts s input).Checked := by
  have hrevoke : ∀ token, (s.redeem token).Checked ∧ (s.revokeRefreshToken token).Checked :=
    fun token => ⟨⟨h.access, fun t e he => h.refresh t e (of_update_none he), h.session⟩,
      ⟨h.access, fun t e he => h.refresh t e (of_update_none he), h.session⟩⟩
  cases r with
  | cleanupAccess checked =>
    exact ⟨fun t e he => h.access t e (filter_eq_some_iff.mp he).1, h.refresh, h.session⟩
  | cleanupRefresh now checked =>
    exact ⟨h.access, fun t e he => h.refresh t e (filter_eq_some_iff.mp he).1, h.session⟩
  | createTokens checked =>
    refine ⟨fun t e he => ?_, h.refresh, h.session⟩
    rcases update_cases he with rfl | he
    · exact hr
    · exact h.access t e he
  | insertRefresh tokens now checked =>
    refine ⟨h.access, fun t e he => ?_, h.session⟩
    rcases update_cases he with rfl | he
    · exact hr
    · exact h.refresh t e he
  | redeem token checked => exact (hrevoke token).1
  | setCredentials creds bySetup =>
    rw [Request.write]
    cases input.saved with
    | ok _ => exact ⟨h.access, h.refresh, h.session⟩
    | error e => exact h
  | logout token =>
    rw [Request.write]
    split
    · exact (hrevoke token).2
    · exact h
  | createSession checked =>
    refine ⟨h.access, h.refresh, fun t e he => ?_⟩
    rcases update_cases he with rfl | he
    · exact hr
    · exact h.session t e he
  | qbitLogout sid =>
    cases sid with
    | none => exact h
    | some sid => exact ⟨h.access, h.refresh, fun t e he => h.session t e (of_update_none he)⟩
  | _ => exact h

/-- **A request that gives out something has compared credentials.** -/
theorem Request.checked_step (hr : r.Checked)
    (hqbit : ∀ username password, r = .qbitLogin username password → (s.current opts).isSome)
    (hstep : r.step opts s input = some (s', r')) : r'.Checked := by
  have hnext : ∀ {t x}, some (t, x) = some (s', r') → x.Checked → r'.Checked :=
    fun heq hx => (Prod.mk.inj (Option.some.inj heq)).2 ▸ hx
  cases r with
  | login username password =>
    rw [step] at hstep
    split at hstep
    · next hstore =>
      split at hstep
      · exact hnext hstep trivial
      · next hnone =>
        exact hnext hstep (checked_loginChecked
          (Stores.isCurrent_of_validateEnv (Bool.eq_false_iff.mpr hnone)))
    · next hstore =>
      split at hstep
      · refine hnext hstep (checked_loginChecked (Stores.isCurrent_of_validateEnv ?_))
        rw [Stores.hasCredentials, Stores.stored, if_neg hstore]
        rfl
      · exact hnext hstep trivial
  | loginValidate username password =>
    exact hnext hstep (checked_loginChecked Stores.isCurrent_of_validate)
  | cleanupAccess checked | cleanupRefresh now checked | createTokens checked
  | redeem token checked => exact hnext hstep hr
  | insertRefresh tokens now checked | logout token | createSession checked | qbitLogout sid =>
    exact hnext hstep trivial
  | refresh token =>
    rw [step] at hstep
    split at hstep
    · split at hstep
      · next hvalid =>
        -- the token is in the store, where all tokens are checked
        obtain ⟨entry, hentry, -⟩ := (Option.any_eq_true _ _).mp hvalid
        refine hnext hstep ?_
        rw [hentry]
        exact h.refresh token entry hentry
      · exact hnext hstep trivial
    · exact hnext hstep trivial
  | setup username password
  | changeCredentials currentPassword newUsername newPassword =>
    rw [step] at hstep
    split at hstep
    · exact hnext hstep trivial
    · split at hstep
      · exact hnext hstep trivial
      · split at hstep <;> exact hnext hstep trivial
  | setCredentials creds bySetup =>
    rw [step] at hstep
    split at hstep
    · refine hnext hstep ?_
      split
      · rfl
      · exact trivial
    · exact hnext hstep trivial
  | guard g handler =>
    rw [step] at hstep
    split at hstep
    · exact hnext hstep handler.checked_start
    · exact hnext hstep trivial
    · exact hnext hstep trivial
  | qbitLogin username password =>
    rw [step] at hstep
    split at hstep
    · exact hnext hstep trivial
    next hnone =>
    split at hstep
    · exact hnext hstep (checked_qbitLoginChecked
        (Stores.isCurrent_of_validateEnv (Bool.eq_false_iff.mpr hnone)))
    next henv =>
    -- neither the store nor the environment has credentials
    have hsome := hqbit username password rfl
    rw [Stores.hasCredentials, not_isSome_iff_eq_none] at hnone
    rw [not_isSome_iff_eq_none] at henv
    rw [Stores.current, hnone, henv] at hsome
    cases hsome
  | qbitValidate username password =>
    exact hnext hstep (checked_qbitLoginChecked Stores.isCurrent_of_validate)
  | done response => cases hstep

/-- **The middleware lets in what presents something**, if the environment has no credentials beside
others that are stored. -/
theorem Guard.presents_of_check {g : Guard}
    (henv : ∀ username password, g = .basic username password →
      opts.basicAuth = none ∨ s.stored opts = opts.basicAuth)
    (hserve : g.check opts s input = .serve) (hsome : (s.current opts).isSome) :
    g.Presents opts s := by
  cases g with
  | native auth =>
    unfold check at hserve
    dsimp only at hserve
    split at hserve
    · next hnone =>
      rw [Bool.and_eq_true, Bool.not_eq_true', Stores.hasCredentials, ← Bool.not_eq_true,
        not_isSome_iff_eq_none, isNone_iff_eq_none] at hnone
      rw [Stores.current, hnone.1, hnone.2] at hsome
      cases hsome
    · cases auth with
      | missing | malformed => cases hserve
      | bearer token =>
        dsimp only at hserve
        split at hserve <;> cases hserve
      | basic username password =>
        dsimp only at hserve
        split at hserve
        · cases hserve
        next hnone =>
        split at hserve
        · next hvalid =>
          exact Stores.isCurrent_iff.mp
            (Stores.isCurrent_of_validateEnv (Bool.eq_false_iff.mpr hnone) hvalid)
        · cases hserve
  | bearer token =>
    unfold check at hserve
    dsimp only at hserve
    split at hserve
    · next hvalid =>
      obtain ⟨entry, hentry, -⟩ := (Option.any_eq_true _ _).mp hvalid
      exact ⟨entry, hentry, h.access token entry hentry⟩
    · cases hserve
  | basic username password =>
    unfold check at hserve
    dsimp only at hserve
    split at hserve
    · next hvalid => exact Stores.isCurrent_iff.mp (Stores.isCurrent_of_validate hvalid)
    split at hserve
    · next hvalid =>
      have hbasic := HttpApiOptions.validateEnv_iff.mp hvalid
      rcases henv username password rfl with hnone | hsame
      · rw [hnone] at hbasic
        cases hbasic
      · show s.current opts = some ⟨username, password⟩
        rw [Stores.current, hsame, hbasic]
        rfl
    · cases hserve
  | qbit sid =>
    unfold check at hserve
    dsimp only at hserve
    split at hserve
    · next hnone =>
      rw [Bool.not_eq_true', Bool.or_eq_false_iff, Stores.hasCredentials, ← Bool.not_eq_true,
        ← Bool.not_eq_true, not_isSome_iff_eq_none, not_isSome_iff_eq_none] at hnone
      rw [Stores.current, hnone.1, hnone.2] at hsome
      cases hsome
    · cases sid <;> cases hserve
  | session sid =>
    unfold check at hserve
    dsimp only at hserve
    split at hserve
    · next hvalid =>
      obtain ⟨session, hsession, -⟩ := (Option.any_eq_true _ _).mp hvalid
      exact ⟨session, hsession, h.session sid session hsession⟩
    · cases hserve

end Steps

/-! ## Whole runs -/

namespace Server

variable {s s' : Server} {a : Action}

lemma Checked.step (h : s.Checked) (hsound : s.sound opts a)
    (hstep : s.step opts a = some s') : s'.Checked := by
  rcases step_cases hstep with ⟨id, call, rfl, rfl⟩ | ⟨id, input, r, r', rfl, hr, hnext, hrequests⟩
  · refine ⟨h.stores, fun id' r hr => ?_⟩
    have hr' : update s.requests id (some call.start) id' = some r := hr
    rcases eq_or_ne id' id with rfl | hne
    · rw [update_self] at hr'
      exact Option.some.inj hr' ▸ call.checked_start
    · rw [update_of_ne hne] at hr'
      exact h.requests id' r hr'
  · refine ⟨?_, fun id' q hq => ?_⟩
    · rw [Request.step_write hnext]
      exact h.stores.write (h.requests id r hr)
    rw [hrequests] at hq
    rcases eq_or_ne id' id with rfl | hne
    · rw [update_self] at hq
      refine Option.some.inj hq ▸ Request.checked_step h.stores (h.requests id' r hr) ?_ hnext
      rintro username password rfl
      rw [sound, hr] at hsound
      exact hsound
    · rw [update_of_ne hne] at hq
      exact h.requests id' q hq

/-- **A change of credentials takes effect** where no session is given out before there are
credentials and the environment has none beside the stored ones. -/
theorem servesChecked_of_sound (opts : HttpApiOptions) (credentials : Option StoredCredentials)
    {as : List Action}
    (h : Along (step opts) (fun s a => s.sound opts a = true) (.new credentials) as) :
    Moves (step opts) (ServesChecked opts) (.new credentials) as := by
  have hnew : (Server.new credentials).Checked := by
    refine ⟨⟨?_, ?_, ?_⟩, ?_⟩ <;> intro _ _ hnone <;> cases hnone
  refine moves_of_along (fun s a s' hs hC hstep => ⟨hs.step hC hstep, ?_⟩) hnew h
  rintro id input g handler rfl hr hserve hsome
  refine Guard.presents_of_check hs.stores ?_ hserve hsome
  rintro username password rfl
  rw [sound, hr, Bool.or_eq_true, isNone_iff_eq_none, decide_eq_true_eq] at hC
  exact hC

/-- Alice changes the password, and goes on with the new one and with a session. -/
theorem servesChecked_of_sound_change : Moves (step {}) (ServesChecked {}) (.new (some alice))
      [.arrive 1 (.guarded (.basic [97] [112]) (.changeCredentials [112] none (some [113]))),
        .proceed 1 {}, .proceed 1 {}, .proceed 1 {}, .proceed 1 {},
        .arrive 2 (.guarded (.basic [97] [113]) .other), .proceed 2 {}, .proceed 2 {},
        .arrive 3 (.qbitLogin [97] [113]), .proceed 3 {}, .proceed 3 {}, .proceed 3 { sid := [7] },
        .arrive 4 (.qbitGuarded (some [7])), .proceed 4 {}, .proceed 4 {}] :=
  servesChecked_of_sound {} (some alice) (by decide)

/-- **The password that was changed is accepted, if it is that of the environment**, and so is a
session that was given to anyone before there were credentials. -/
theorem not_servesChecked :
    (¬ Moves (step { basicAuth := some alice }) (ServesChecked { basicAuth := some alice })
      (.new none)
      ([.arrive 1 (.guarded (.basic [97] [112]) (.changeCredentials [112] none (some [113]))),
        .proceed 1 {}, .proceed 1 {}, .proceed 1 {},
        .arrive 2 (.guarded (.basic [97] [112]) .other), .proceed 2 {}] ++ [.proceed 2 {}])) ∧
    ¬ Moves (step {}) (ServesChecked {}) (.new none)
      ([.arrive 1 (.qbitLogin [] []), .proceed 1 {}, .proceed 1 { sid := [7] },
        .arrive 2 (.setup [97] [112]), .proceed 2 {}, .proceed 2 {},
        .arrive 3 (.qbitGuarded (some [7])), .proceed 3 {}] ++ [.proceed 3 {}]) := by
  constructor
  · -- the credentials in force are not those of the request
    refine not_moves_of_run (fun s _ => decide (
      s.requests 2 = some (.guard (.basic [97] [112]) .other) ∧
      Guard.check { basicAuth := some alice } s.stores {} (.basic [97] [112]) = .serve ∧
      s.stores.current { basicAuth := some alice } = some ⟨[97], [113]⟩)) (fun s s' hbad h => ?_)
      (by decide)
    obtain ⟨hr, hserve, hcurrent⟩ := of_decide_eq_true hbad
    have hpresents : s.stores.current { basicAuth := some alice } = some ⟨[97], [112]⟩ :=
      h 2 {} _ _ rfl hr hserve (by rw [hcurrent]; rfl)
    rw [hcurrent] at hpresents
    revert hpresents
    decide
  · -- the session was given out without a check
    refine not_moves_of_run (fun s _ => decide (
      s.requests 3 = some (.guard (.session [7]) .other) ∧
      Guard.check {} s.stores {} (.session [7]) = .serve ∧
      (s.stores.current {}).isSome ∧
      (s.stores.sessions [7]).all (fun session => session.checked) = false)) (fun s s' hbad h => ?_)
      (by decide)
    obtain ⟨hr, hserve, hsome, hunchecked⟩ := of_decide_eq_true hbad
    obtain ⟨session, hsession, hchecked⟩ := h 3 {} _ _ rfl hr hserve hsome
    rw [hsession, all_some, hchecked] at hunchecked
    cases hunchecked

end Server

end Librtbit.Http

import Librtbit.Http.Auth

/-!
# Http/Rotation — what can be done only once

A refresh token is good for one exchange and for none after a logout, and the first boot is set up
once (`Exclusive`).  Each of the three is checked in one critical section and acted on in another:
`refresh` looks the token up and removes it later without looking whether it is still there, and a
setup finds no credentials and stores its own later.  So it takes requests that do not come in
between (`exclusive_of_undisturbed`); two refreshes of one token that do both get new tokens.
-/

namespace Librtbit.Http

open Machinery Function Option

/-- **Only once**: a refresh token is exchanged at most once and not after a logout, and at most one
setup stores its credentials. -/
structure Stores.Exclusive (s : Stores) : Prop where
  redeemed_le : ∀ token, s.redeemed token ≤ 1
  redeemed_eq : ∀ token n, s.revokedAt token = some n → s.redeemed token = n
  setups_le : s.setups ≤ 1

/-- **Nobody came in between**: the token that is removed is still there, the token that is put in
is a new one, and no credentials are stored when a setup stores its own. -/
def Request.undisturbed (s : Stores) : Request → Bool
  | .redeem token _ => (s.refreshTokens token).isSome
  | .insertRefresh tokens _ _ =>
    s.redeemed tokens.refreshToken == 0 && (s.revokedAt tokens.refreshToken).isNone
  | .setCredentials _ true => s.credentials.isNone
  | _ => true

def Server.undisturbed (s : Server) : Action → Bool
  | .arrive _ _ => true
  | .proceed id _ => (s.requests id).all fun r => r.undisturbed s.stores

/-- A refresh token that is in the store was neither exchanged nor logged out, and what a setup
stored stays. -/
structure Stores.Rotating (s : Stores) : Prop extends s.Exclusive where
  unused : ∀ token, (s.refreshTokens token).isSome = true →
    s.redeemed token = 0 ∧ s.revokedAt token = none
  stored : 0 < s.setups → s.credentials.isSome = true

namespace Stores.Rotating

variable {s : Stores} {token : Token}

section

variable (h : s.Rotating)
include h

/-- The access tokens and the sessions do not matter. -/
lemma of_eq {s' : Stores} (hrefresh : s'.refreshTokens = s.refreshTokens)
    (hredeemed : s'.redeemed = s.redeemed) (hrevoked : s'.revokedAt = s.revokedAt)
    (hcredentials : s'.credentials = s.credentials) (hsetups : s'.setups = s.setups) :
    s'.Rotating where
  redeemed_le := hredeemed ▸ h.redeemed_le
  redeemed_eq := hredeemed ▸ hrevoked ▸ h.redeemed_eq
  setups_le := hsetups ▸ h.setups_le
  unused := hrefresh ▸ hredeemed ▸ hrevoked ▸ h.unused
  stored := hsetups ▸ hcredentials ▸ h.stored

lemma cleanupRefresh (now : Instant) : (s.cleanupRefresh now).Rotating where
  redeemed_le := h.redeemed_le
  redeemed_eq := h.redeemed_eq
  setups_le := h.setups_le
  unused token htoken := by
    obtain ⟨entry, hentry⟩ := isSome_iff_exists.mp htoken
    refine h.unused token ?_
    rw [(filter_eq_some_iff.mp hentry).1]
    rfl
  stored := h.stored

lemma insertRefresh (hnew : s.redeemed token = 0) (hrevoked : s.revokedAt token = none)
    (now : Instant) (checked : Bool) : (s.insertRefresh token now checked).Rotating where
  redeemed_le := h.redeemed_le
  redeemed_eq := h.redeemed_eq
  setups_le := h.setups_le
  unused t ht := by
    rcases eq_or_ne t token with rfl | hne
    · exact ⟨hnew, hrevoked⟩
    rw [Stores.insertRefresh] at ht
    dsimp only at ht
    rw [update_of_ne hne] at ht
    exact h.unused t ht
  stored := h.stored

/-- The token was there, so this is its first exchange. -/
lemma redeem (hthere : (s.refreshTokens token).isSome) : (s.redeem token).Rotating where
  redeemed_le t := by
    rw [Stores.redeem]
    dsimp only
    rcases eq_or_ne t token with rfl | hne
    · rw [update_self, (h.unused t hthere).1]
    · rw [update_of_ne hne]
      exact h.redeemed_le t
  redeemed_eq t n hn := by
    have hne : t ≠ token := by
      rintro rfl
      have hnone : s.revokedAt t = some n := hn
      rw [(h.unused t hthere).2] at hnone
      cases hnone
    rw [Stores.redeem]
    dsimp only
    rw [update_of_ne hne]
    exact h.redeemed_eq t n hn
  setups_le := h.setups_le
  unused t ht := by
    rw [Stores.redeem] at ht ⊢
    dsimp only at ht ⊢
    have hne : t ≠ token := by
      rintro rfl
      rw [update_self] at ht
      cases ht
    rw [update_of_ne hne] at ht ⊢
    exact h.unused t ht
  stored := h.stored

lemma revokeRefreshToken (token : Token) : (s.revokeRefreshToken token).Rotating where
  redeemed_le := h.redeemed_le
  redeemed_eq t n hn := by
    rw [Stores.revokeRefreshToken] at hn
    dsimp only at hn
    rcases eq_or_ne t token with rfl | hne
    · rw [update_self, Option.some.injEq] at hn
      cases hrevoked : s.revokedAt t with
      | none =>
        rw [hrevoked] at hn
        exact hn
      | some m =>
        rw [hrevoked] at hn
        exact (h.redeemed_eq t m hrevoked).trans hn
    · rw [update_of_ne hne] at hn
      exact h.redeemed_eq t n hn
  setups_le := h.setups_le
  unused t ht := by
    rw [Stores.revokeRefreshToken] at ht ⊢
    dsimp only at ht ⊢
    have hne : t ≠ token := by
      rintro rfl
      rw [update_self] at ht
      cases ht
    rw [update_of_ne hne] at ht ⊢
    exact h.unused t ht
  stored := h.stored

lemma setCredentials (creds : StoredCredentials) {bySetup : Bool}
    (hfirst : bySetup → s.credentials.isNone) :
    (s.setCredentials creds bySetup).Rotating where
  redeemed_le := h.redeemed_le
  redeemed_eq := h.redeemed_eq
  setups_le := by
    rw [Stores.setCredentials]
    cases bySetup with
    | false => exact h.setups_le
    | true =>
      have hzero : s.setups = 0 := by
        by_contra hpos
        have hstored := h.stored (Nat.pos_of_ne_zero hpos)
        rw [isNone_iff_eq_none.mp (hfirst rfl)] at hstored
        cases hstored
      simp [hzero]
  unused := h.unused
  stored _ := rfl

/-- **A critical section nobody disturbed keeps what can be done once.** -/
theorem write (opts : HttpApiOptions) (input : Input) {r : Request} (hr : r.undisturbed s) :
    (r.write opts s input).Rotating := by
  cases r with
  | cleanupRefresh now checked => exact h.cleanupRefresh now
  | insertRefresh tokens now checked =>
    rw [Request.undisturbed, Bool.and_eq_true, beq_iff_eq, isNone_iff_eq_none] at hr
    exact h.insertRefresh hr.1 hr.2 now checked
  | redeem token checked => exact h.redeem hr
  | setCredentials creds bySetup =>
    rw [Request.write]
    cases input.saved with
    | ok _ =>
      refine h.setCredentials creds fun hsetup => ?_
      subst hsetup
      exact hr
    | error e => exact h
  | logout token =>
    rw [Request.write]
    split
    · exact h.revokeRefreshToken token
    · exact h
  | qbitLogout sid =>
    cases sid with
    | none => exact h
    | some sid => exact h.of_eq rfl rfl rfl rfl rfl
  | cleanupAccess | createTokens | createSession => exact h.of_eq rfl rfl rfl rfl rfl
  | _ => exact h

end

end Stores.Rotating

section Runs

/-- Alice logs in and is given the refresh token `[2]`. -/
def aliceLogsIn : List Action :=
  [.arrive 0 (.login [97] [112]), .proceed 0 {}, .proceed 0 {}, .proceed 0 {}, .proceed 0 {},
    .proceed 0 { accessToken := [1], refreshToken := [2] }, .proceed 0 {}]

end Runs

end Librtbit.Http

import Mathlib.Data.List.DropRight
import VoiceSpend.Accounts.Provision
import VoiceSpend.Sync.Schema

/-!
# Verified identities

`get_current_user`: the bearer token of a request is decoded by PyJWT, with the key and the algorithms that the
settings choose, and the payload has to name a subject.
-/

namespace VoiceSpend

/-- The settings of token verification. -/
structure AuthSettings where
  supabaseUrl : String
  supabaseJwtSecret : String
  supabaseJwtJwksUrl : String
  supabaseJwtAudience : String
  supabaseJwtIssuer : String

/-- `supabase_issuer`. -/
def AuthSettings.supabaseIssuer (settings : AuthSettings) : String :=
  if settings.supabaseJwtIssuer ≠ "" then settings.supabaseJwtIssuer
  else String.ofList (settings.supabaseUrl.toList.rdropWhile (· = '/')) ++ "/auth/v1"

/-- A call of PyJWT returns, raises a `PyJWTError` with a text, or raises anything else. -/
inductive JwtResult (α : Type*)
  | ok (value : α)
  | pyJwtError (text : String)
  | raised

def JwtResult.bind {α β : Type*} (result : JwtResult α) (f : α → JwtResult β) : JwtResult β :=
  match result with
  | .ok value => f value
  | .pyJwtError text => .pyJwtError text
  | .raised => .raised

/-- Third-party code: `HTTPBearer` on the header, the key of a token from a JWKS URL, and `jwt.decode` of a
token with a key, the allowed algorithms, an audience and an issuer, at a time. -/
structure TokenLibrary where
  bearer : Option String → Option String
  signingKey : String → String → JwtResult String
  decode : String → String → List String → String → String → Instant → JwtResult (Table Text Json)

/-- The `HTTPException`s of authentication. -/
structure AuthError where
  statusCode : ℕ
  detail : String
  headers : List (String × String)
  deriving DecidableEq, Repr

/-- A value, an `HTTPException`, or any other exception. -/
inductive AuthResult (α : Type*)
  | ok (value : α)
  | unauthorized (error : AuthError)
  | raised

def AuthResult.bind {α β : Type*} (result : AuthResult α) (f : α → AuthResult β) : AuthResult β :=
  match result with
  | .ok value => f value
  | .unauthorized error => .unauthorized error
  | .raised => .raised

/-- `_decode_token`. -/
def decodeToken (lib : TokenLibrary) (settings : AuthSettings) (token : String) (now : Instant) :
    AuthResult (Table Text Json) :=
  let decoded :=
    if settings.supabaseJwtJwksUrl ≠ "" then
      (lib.signingKey settings.supabaseJwtJwksUrl token).bind fun key ↦
        lib.decode token key ["RS256", "ES256"] settings.supabaseJwtAudience settings.supabaseIssuer now
    else
      lib.decode token settings.supabaseJwtSecret ["HS256"] settings.supabaseJwtAudience
        settings.supabaseIssuer now
  match decoded with
  | .ok payload => .ok payload
  | .pyJwtError text =>
    .unauthorized ⟨401, "Invalid authentication token: " ++ text, [("WWW-Authenticate", "Bearer")]⟩
  | .raised => .raised

/-- A claim that is a string. -/
def stringClaim (payload : Table Text Json) (name : String) : Option Text :=
  match payload.lookup (.unicode name) with
  | some (.str value) => some value
  | _ => none

/-- `_payload_to_user`. -/
def payloadToUser (payload : Table Text Json) : AuthResult AuthUser :=
  match (stringClaim payload "sub").filter (· ≠ .unicode "") with
  | some sub => .ok ⟨sub, stringClaim payload "email"⟩
  | none => .unauthorized ⟨401, "Token missing 'sub' claim", []⟩

/-- `get_current_user`. -/
def getCurrentUser (lib : TokenLibrary) (settings : AuthSettings) (authorization : Option String)
    (now : Instant) : AuthResult AuthUser :=
  match (lib.bearer authorization).filter (· ≠ "") with
  | none => .unauthorized ⟨401, "Missing bearer token", [("WWW-Authenticate", "Bearer")]⟩
  | some token => (decodeToken lib settings token now).bind payloadToUser

section

variable {lib : TokenLibrary} {settings : AuthSettings} {authorization : Option String} {now : Instant}

theorem decodeToken_unauthorized {token : String} {error : AuthError}
    (h : decodeToken lib settings token now = .unauthorized error) : error.statusCode = 401 := by
  simp only [decodeToken] at h
  split at h <;> cases h
  rfl

theorem payloadToUser_unauthorized {payload : Table Text Json} {error : AuthError}
    (h : payloadToUser payload = .unauthorized error) : error.statusCode = 401 := by
  unfold payloadToUser at h
  split at h <;> cases h
  rfl

/-- Every refusal is a 401. -/
theorem getCurrentUser_unauthorized {error : AuthError}
    (h : getCurrentUser lib settings authorization now = .unauthorized error) : error.statusCode = 401 := by
  unfold getCurrentUser at h
  split at h
  · cases h
    rfl
  · rename_i token _
    cases hdecoded : decodeToken lib settings token now with
    | ok payload =>
      rw [hdecoded] at h
      exact payloadToUser_unauthorized h
    | unauthorized other =>
      rw [hdecoded] at h
      cases h
      exact decodeToken_unauthorized hdecoded
    | raised =>
      rw [hdecoded] at h
      cases h

end

end VoiceSpend

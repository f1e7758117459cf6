import Evobase.AppSpec.Constraint
import Evobase.Core.Error

/-!
# Users and tokens
-/

namespace Evobase

open Foundation

structure Credentials where
  username : String
  password : String
deriving DecidableEq

/-- What a token says: the user, and the second of the epoch at which it expires. -/
structure TokenClaims (U : Type) where
  sub : U
  exp : U64
deriving DecidableEq

structure TokenBundle where
  accessToken : String
  refreshToken : String
  notificationToken : String
  tokenType : String
  expiresIn : U64
deriving DecidableEq

structure AuthResponse (U : Type) where
  userId : U
  username : String
  tokens : TokenBundle
deriving DecidableEq

structure AuthContext (U : Type) where
  userId : U
deriving DecidableEq

structure TokenConfig where
  accessSecret : String
  refreshSecret : String
  notificationSecret : String
  accessTtlSecs : U64
  refreshTtlSecs : U64
  notificationTtlSecs : U64

/-- A row of `auth.users`. -/
structure UserRecord (U : Type) where
  id : U
  username : String
  passwordHash : String
deriving DecidableEq

/-- The three uses of a token. -/
inductive TokenKind where
  | access
  | refresh
  | notification
deriving DecidableEq

namespace TokenConfig

def secret (config : TokenConfig) : TokenKind → String
  | .access => config.accessSecret
  | .refresh => config.refreshSecret
  | .notification => config.notificationSecret

def ttlSecs (config : TokenConfig) : TokenKind → U64
  | .access => config.accessTtlSecs
  | .refresh => config.refreshTtlSecs
  | .notification => config.notificationTtlSecs

end TokenConfig

def TokenBundle.token (bundle : TokenBundle) : TokenKind → String
  | .access => bundle.accessToken
  | .refresh => bundle.refreshToken
  | .notification => bundle.notificationToken

end Evobase

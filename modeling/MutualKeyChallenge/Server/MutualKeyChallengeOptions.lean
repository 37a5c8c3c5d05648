import MutualKeyChallenge.Server.LocalChallengeCache
import MutualKeyChallenge.Server.MessageVerifier
import MutualKeyChallenge.Server.RequestFuncs

/-! The strategy's options that have defaults. -/
namespace MutualKeyChallenge

structure MutualKeyChallengeOptionalOptions where
  challengeOrResponseFunc : HttpRequest → ℕ → Except Thrown (Extracted UserId Bytes)
  challengeCache : LocalChallengeCache UserId Bytes
  cryptography : CryptographyOptions

/-- `RSA_PKCS1_OAEP_PADDING` is 4 and `RSA_PKCS1_PADDING` is 1. -/
def MutualKeyChallengeOptionalOptions.getDefaultOptions (node : NodeBuffer) :
    MutualKeyChallengeOptionalOptions where
  challengeOrResponseFunc := challengeByBase64Header node "uid" "cha" "res"
  challengeCache := .new (120 * 1000)
  cryptography :=
    { messagePadding := 4, signaturePadding := 1, hashAlgorithm := "sha256", nonceSize := 128 }

end MutualKeyChallenge

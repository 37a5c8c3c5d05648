import MutualKeyChallenge.Server.Types

/-! Node's crypto calls as a parameter, and the class that wraps them on the server. -/
namespace MutualKeyChallenge

/-- The options object of `publicEncrypt` and `privateDecrypt`. -/
structure EncryptOptions (K : Type) where
  key : K
  oaepHash : String
  padding : ℕ
  deriving DecidableEq, Repr

/-- The options object of `sign` and `verify`. -/
structure SignatureOptions (K : Type) where
  key : K
  padding : ℕ
  deriving DecidableEq, Repr

/-- The calls of node's `crypto` that the two packages make. A key is given by its key pair;
`S` is where randomness comes from. `publicEncrypt` throws when the data does not fit the
key and `privateDecrypt` when the ciphertext does not decrypt. -/
structure NodeCrypto (K B S : Type) where
  randomBytes : ℕ → S → B
  publicEncrypt : EncryptOptions K → S → B → Except Thrown B
  privateDecrypt : EncryptOptions K → B → Except Thrown B
  sign : String → B → SignatureOptions K → B
  verify : String → B → SignatureOptions K → B → Bool

/-- What was encrypted decrypts and what was signed verifies, under the same key and options. -/
structure NodeCrypto.RoundTrips {K B S : Type} (crypto : NodeCrypto K B S) : Prop where
  decrypt_encrypt : ∀ o seed m c,
    crypto.publicEncrypt o seed m = .ok c → crypto.privateDecrypt o c = .ok m
  verify_sign : ∀ hash m o, crypto.verify hash m o (crypto.sign hash m o) = true

structure CryptographyOptions where
  messagePadding : ℕ
  signaturePadding : ℕ
  hashAlgorithm : String
  nonceSize : ℕ
  deriving DecidableEq, Repr

/-- The `serverKey` option once the constructor has run: a `KeyObject` it stored, or the
function to ask each time. -/
inductive ServerKey (K : Type)
  | keyObject (key : K)
  | getServerKeyFunc
  deriving DecidableEq, Repr

structure MessageVerifier (K B S : Type) where
  crypto : NodeCrypto K B S
  key : ServerKey K
  options : CryptographyOptions

namespace MessageVerifier
variable {K B S : Type} (v : MessageVerifier K B S)

def signOptions (key : K) : SignatureOptions K :=
  { key, padding := v.options.signaturePadding }

def verifyOptions (key : K) : SignatureOptions K :=
  { key, padding := v.options.signaturePadding }

def encryptOptions (key : K) : EncryptOptions K :=
  { key, oaepHash := v.options.hashAlgorithm, padding := v.options.messagePadding }

/-- What `await this.serverKey()` resolves to; `returned` is what the application's function
gives when there is one. -/
def serverKey (returned : K) : K :=
  match v.key with
  | .keyObject key => key
  | .getServerKeyFunc => returned

/-- The rest of `decryptAndVerify` after `serverKey` resolved. A failing decryption throws. -/
def decryptAndVerify (key pubKey : K) (data : SignedMessage B) : Except Thrown (Option B) :=
  match v.crypto.privateDecrypt (v.encryptOptions key) data.message with
  | .error e => .error e
  | .ok decrypted =>
    if v.crypto.verify v.options.hashAlgorithm decrypted (v.verifyOptions pubKey) data.signature
    then .ok (some decrypted)
    else .ok none

def encryptAndSign (key : K) (seed : S) (pubKey : K) (data : B) :
    Except Thrown (SignedMessage B) :=
  match v.crypto.publicEncrypt (v.encryptOptions pubKey) seed data with
  | .error e => .error e
  | .ok message =>
    .ok { message, signature := v.crypto.sign v.options.hashAlgorithm data (v.signOptions key) }

def verify (pubKey : K) (data : SignedMessage B) : Bool :=
  v.crypto.verify v.options.hashAlgorithm data.message (v.verifyOptions pubKey) data.signature

def sign (key : K) (data : B) : SignedMessage B :=
  { message := data
    signature := v.crypto.sign v.options.hashAlgorithm data (v.signOptions key) }

def getNonce (random : S) : B := v.crypto.randomBytes v.options.nonceSize random

variable {v} {key pubKey : K} {seed : S} {data : SignedMessage B} {nonce : B} {e : Thrown}

theorem decryptAndVerify_error : v.decryptAndVerify key pubKey data = .error e ↔
    v.crypto.privateDecrypt (v.encryptOptions key) data.message = .error e := by
  unfold decryptAndVerify
  split
  · rename_i e' he
    simp [he]
  · rename_i decrypted hd
    split <;> simp [hd]

theorem decryptAndVerify_decrypts {d : B}
    (h : v.decryptAndVerify key pubKey data = .ok (some d)) :
    v.crypto.privateDecrypt (v.encryptOptions key) data.message = .ok d := by
  unfold decryptAndVerify at h
  split at h
  · cases h
  · split at h <;> cases h
    assumption

theorem encryptAndSign_error : v.encryptAndSign key seed pubKey nonce = .error e ↔
    v.crypto.publicEncrypt (v.encryptOptions pubKey) seed nonce = .error e := by
  unfold encryptAndSign
  split
  · rename_i e' he
    simp [he]
  · rename_i message hm
    simp [hm]

theorem encryptAndSign_ok (h : v.encryptAndSign key seed pubKey nonce = .ok data) :
    v.crypto.publicEncrypt (v.encryptOptions pubKey) seed nonce = .ok data.message := by
  unfold encryptAndSign at h
  split at h <;> cases h
  assumption

theorem encryptAndSign_signature (h : v.encryptAndSign key seed pubKey nonce = .ok data) :
    data.signature = v.crypto.sign v.options.hashAlgorithm nonce (v.signOptions key) := by
  unfold encryptAndSign at h
  split at h <;> cases h
  rfl

end MessageVerifier
end MutualKeyChallenge

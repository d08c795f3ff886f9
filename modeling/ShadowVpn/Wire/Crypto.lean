import ShadowVpn.Lib.Octets

/-! The datagram envelope of `vendor/crypto.rs`: salt, ciphertext and tag, under a subkey
derived for each datagram. The hash, the key derivation and the AEAD are parameters. -/

namespace ShadowVpn.Wire.Crypto
open ShadowVpn.Lib.Octets

inductive Cipher where
  | aes128Gcm
  | aes256Gcm
  | chaCha20Poly1305
  deriving DecidableEq

inductive CryptoError where
  | tooShort (got need : Nat)
  | hkdf
  | aead
  deriving DecidableEq

namespace Cipher

def keyLen : Cipher → Nat
  | aes128Gcm => 16
  | aes256Gcm | chaCha20Poly1305 => 32

/-- The salt is as long as the key. -/
def saltLen (cipher : Cipher) : Nat := cipher.keyLen

end Cipher

def tagLen : Nat := 16

/-- `b"ss-subkey"`. -/
def ssSubkeyInfo : Bytes := [115, 115, 45, 115, 117, 98, 107, 101, 121]

/-- An MD5 digest. -/
structure Digest where
  bytes : Bytes
  sized : bytes.length = 16

/-- The primitives the crate takes from its dependencies; the AEAD uses the all-zero nonce. -/
structure Primitives where
  md5 : Bytes → Digest
  hkdfSha1 : (salt ikm info : Bytes) → (len : Nat) → Option Bytes
  encrypt : Cipher → (key plaintext : Bytes) → Option Bytes
  decrypt : Cipher → (key ciphertext : Bytes) → Option Bytes

/-- What the code relies on: a derived key has the length asked for, sealing appends a tag
and opening under the same key inverts it. -/
structure Primitives.Lawful (prims : Primitives) : Prop where
  hkdf_length : ∀ salt ikm info len key, prims.hkdfSha1 salt ikm info len = some key →
    key.length = len
  encrypt_length : ∀ cipher key plaintext ciphertext,
    prims.encrypt cipher key plaintext = some ciphertext →
    ciphertext.length = plaintext.length + tagLen
  decrypt_encrypt : ∀ cipher key plaintext ciphertext,
    prims.encrypt cipher key plaintext = some ciphertext →
    prims.decrypt cipher key ciphertext = some plaintext

section Envelope

variable (prims : Primitives)

/-- The loop of `evp_bytes_to_key`: digests are appended until there are enough bytes. -/
def evpLoop (password : Bytes) (keyLen : Nat) (prev key : Bytes) : Bytes :=
  if key.length < keyLen then
    let next := (prims.md5 (prev ++ password)).bytes
    evpLoop password keyLen next (key ++ next)
  else key.take keyLen
termination_by keyLen - key.length
decreasing_by
  have sized := (prims.md5 (prev ++ password)).sized
  simp only [List.length_append, sized]
  omega

def evpBytesToKey (password : Bytes) (keyLen : Nat) : Bytes := evpLoop prims password keyLen [] []

def deriveSubkey (masterKey salt : Bytes) (keyLen : Nat) : Except CryptoError Bytes :=
  match prims.hkdfSha1 salt masterKey ssSubkeyInfo keyLen with
  | some subkey => .ok subkey
  | none => .error .hkdf

/-- The key type of the AEAD takes exactly `keyLen` bytes. -/
def aeadSeal (cipher : Cipher) (subkey plaintext : Bytes) : Except CryptoError Bytes :=
  if subkey.length ≠ cipher.keyLen then .error .aead
  else
    match prims.encrypt cipher subkey plaintext with
    | some ciphertext => .ok ciphertext
    | none => .error .aead

def aeadOpen (cipher : Cipher) (subkey ciphertext : Bytes) : Except CryptoError Bytes :=
  if subkey.length ≠ cipher.keyLen then .error .aead
  else
    match prims.decrypt cipher subkey ciphertext with
    | some plaintext => .ok plaintext
    | none => .error .aead

/-- A fresh random salt of the cipher's length. -/
structure Salt (cipher : Cipher) where
  bytes : Bytes
  sized : bytes.length = cipher.saltLen

/-- `encrypt_packet`, with the salt it draws as an argument. -/
def encryptPacket (cipher : Cipher) (masterKey : Bytes) (salt : Salt cipher) (plaintext : Bytes) :
    Except CryptoError Bytes := do
  let subkey ← deriveSubkey prims masterKey salt.bytes cipher.keyLen
  let ciphertext ← aeadSeal prims cipher subkey plaintext
  .ok (salt.bytes ++ ciphertext)

def decryptPacket (cipher : Cipher) (masterKey datagram : Bytes) : Except CryptoError Bytes :=
  let need := cipher.saltLen + tagLen
  if datagram.length < need then .error (.tooShort datagram.length need)
  else do
    let subkey ← deriveSubkey prims masterKey (datagram.take cipher.saltLen) cipher.keyLen
    aeadOpen prims cipher subkey (datagram.drop cipher.saltLen)

variable {prims}

theorem evpLoop_length (password : Bytes) (keyLen : Nat) (prev key : Bytes) :
    (evpLoop prims password keyLen prev key).length = keyLen := by
  induction prev, key using evpLoop.induct prims password keyLen with
  | case1 prev key short next ih =>
    rw [evpLoop, if_pos short]
    exact ih
  | case2 prev key enough =>
    rw [evpLoop, if_neg enough, List.length_take]
    omega

theorem evpBytesToKey_length (password : Bytes) (keyLen : Nat) :
    (evpBytesToKey prims password keyLen).length = keyLen :=
  evpLoop_length password keyLen [] []

/-- What a successful encryption did. -/
theorem encryptPacket_ok {cipher : Cipher} {masterKey plaintext datagram : Bytes} {salt : Salt cipher}
    (sent : encryptPacket prims cipher masterKey salt plaintext = .ok datagram) :
    ∃ subkey ciphertext, prims.hkdfSha1 salt.bytes masterKey ssSubkeyInfo cipher.keyLen = some subkey ∧
      prims.encrypt cipher subkey plaintext = some ciphertext ∧
      subkey.length = cipher.keyLen ∧ datagram = salt.bytes ++ ciphertext := by
  unfold encryptPacket deriveSubkey aeadSeal at sent
  cases derived : prims.hkdfSha1 salt.bytes masterKey ssSubkeyInfo cipher.keyLen with
  | none => simp [derived, bind, Except.bind] at sent
  | some subkey =>
    by_cases sized : subkey.length = cipher.keyLen
    · cases sealed : prims.encrypt cipher subkey plaintext with
      | none => simp [derived, sized, sealed, bind, Except.bind] at sent
      | some ciphertext =>
        simp [derived, sized, sealed, bind, Except.bind] at sent
        exact ⟨subkey, ciphertext, rfl, sealed, sized, sent.symm⟩
    · simp [derived, sized, bind, Except.bind] at sent

theorem encryptPacket_length (lawful : prims.Lawful) {cipher : Cipher}
    {masterKey plaintext datagram : Bytes} {salt : Salt cipher}
    (sent : encryptPacket prims cipher masterKey salt plaintext = .ok datagram) :
    datagram.length = cipher.saltLen + (plaintext.length + tagLen) := by
  obtain ⟨subkey, ciphertext, _, sealed, _, rfl⟩ := encryptPacket_ok sent
  rw [List.length_append, salt.sized, lawful.encrypt_length _ _ _ _ sealed]

/-- Decryption under the same password inverts encryption. -/
theorem decryptPacket_encryptPacket (lawful : prims.Lawful) {cipher : Cipher}
    {masterKey plaintext datagram : Bytes} {salt : Salt cipher}
    (sent : encryptPacket prims cipher masterKey salt plaintext = .ok datagram) :
    decryptPacket prims cipher masterKey datagram = .ok plaintext := by
  have long := encryptPacket_length lawful sent
  obtain ⟨subkey, ciphertext, derived, sealed, sized, rfl⟩ := encryptPacket_ok sent
  have front : (salt.bytes ++ ciphertext).take cipher.saltLen = salt.bytes := by
    rw [← salt.sized, List.take_left]
  have back : (salt.bytes ++ ciphertext).drop cipher.saltLen = ciphertext := by
    rw [← salt.sized, List.drop_left]
  have opened := lawful.decrypt_encrypt _ _ _ _ sealed
  have fits : ¬(salt.bytes ++ ciphertext).length < cipher.saltLen + tagLen := by omega
  simp only [decryptPacket, if_neg fits, front, back, deriveSubkey, derived, aeadOpen, sized,
    opened, bind, Except.bind, ne_eq, not_true_eq_false, if_false]

end Envelope

end ShadowVpn.Wire.Crypto

import Gabriel.Core.Numbers
import Gabriel.Lib.FileWrite
import Gabriel.Lib.SortedMap
import Gabriel.Lib.Utf8

/-!
# `Gabriel.Vault.Store`: the encrypted vault

`Vault` of `gabriel-vault/src/lib.rs`: opening and creating a vault, reading and changing it in
memory, and writing it back. The path of the vault is fixed; the file there is its bytes, or
`none` while it does not exist. An error keeps the message that the platform gave, without the
path.

The cipher, the key derivation, base64 and the JSON of the two documents come from libraries. They
are the fields of `Libraries`. Random values are arguments of the calls that draw them.

The definitions:

* `Vault`: the secrets in memory, the key, and whether they were changed.
* `openExisting`, `create`, `openVault`: open the file, or make a new vault.
* `get`, `set`, `remove`: the map of the secrets.
* `save`, `saveIfDirty`: write the envelope, with the fault that the write may have.
-/

set_option autoImplicit false

namespace Gabriel.Vaults

open Gabriel.Core Text FileWrite

/-! ### Data -/

/-- What can go wrong. -/
inductive VaultError where
  | io (message : Text)
  | malformed (message : Text)
  | version (found : UInt32)
  | decrypt
  | keychain (message : Text)
  | weakPassphrase
  deriving DecidableEq

/-- How the encryption key is obtained. -/
inductive KeySource where
  | keychain
  | passphrase (pass : Text)
  deriving DecidableEq

/-- Where the key of a vault comes from. -/
inductive Kdf where
  | keychain
  | argon2id (salt : Text) (mCost tCost pCost : UInt32)
  deriving DecidableEq

/-- The encrypted envelope as it sits on disk. -/
structure VaultFile where
  version : UInt32
  id : Text
  kdf : Kdf
  nonce : Text
  ciphertext : Text
  deriving DecidableEq

/-- A string of a fixed number of bytes. -/
abbrev ByteArrayOf (n : Nat) := { bytes : List UInt8 // bytes.length = n }

/-- An encryption key. -/
abbrev Key := ByteArrayOf 32

/-- A nonce of the cipher. -/
abbrev Nonce := ByteArrayOf 24

/-- The secrets, by name. -/
abbrev Secrets := SortedMap Text Text

/-- An open vault. -/
structure Vault where
  id : Text
  key : Key
  kdf : Kdf
  secrets : Secrets
  dirty : Bool
  deriving DecidableEq

/-- The parts that come from libraries. -/
structure Libraries where
  /-- XChaCha20-Poly1305: `none` for a message that is too long. -/
  encrypt : Key → Nonce → List UInt8 → Option (List UInt8)
  /-- `none` for a message that this key did not seal. -/
  decrypt : Key → Nonce → List UInt8 → Option (List UInt8)
  /-- Argon2id with its three parameters. -/
  deriveKey : Text → List UInt8 → UInt32 → UInt32 → UInt32 → Except VaultError Key
  b64Encode : List UInt8 → Text
  b64Decode : Text → Option (List UInt8)
  renderFile : VaultFile → Text
  parseFile : Text → Except Text VaultFile
  renderSecrets : Secrets → List UInt8
  parseSecrets : List UInt8 → Except Text Secrets

/-- The platform: the file, and the keychain. -/
structure Platform where
  file : Option (List UInt8)
  /-- The password that the keychain holds for an id, or its error. -/
  keychain : Text → Except Text Text
  /-- Why the keychain stores nothing. -/
  refusal : Option Text := none

/-- The random values of one call of `create`. -/
structure Drawn where
  id : UInt64
  key : Key
  salt : ByteArrayOf 16
  nonce : Nonce

/-- `FORMAT_VERSION`. -/
def formatVersion : UInt32 := 1

/-- `ARGON_M_COST`. -/
def argonMCost : UInt32 := 65536

/-- `ARGON_T_COST`. -/
def argonTCost : UInt32 := 3

/-- `ARGON_P_COST`. -/
def argonPCost : UInt32 := 1

/-! ### Keys -/

/-- Bytes of a given number. -/
def toBytes (n : Nat) (bytes : List UInt8) : Option (ByteArrayOf n) :=
  if h : bytes.length = n then some ⟨bytes, h⟩ else none

/-- The key that the keychain holds for a vault. -/
def keychainKey (libs : Libraries) (keychain : Text → Except Text Text) (id : Text) :
    Except VaultError Key :=
  match keychain id with
  | .error message => .error (.keychain message)
  | .ok encoded =>
    match (libs.b64Decode encoded).bind (toBytes 32) with
    | some key => .ok key
    | none => .error .decrypt

/-- The key of a vault file. -/
def fileKey (libs : Libraries) (keychain : Text → Except Text Text) (source : KeySource)
    (id : Text) : Kdf → Except VaultError Key
  | .keychain => keychainKey libs keychain id
  | .argon2id salt mCost tCost pCost =>
    match source with
    | .passphrase pass =>
      match libs.b64Decode salt with
      | none => .error (.malformed "salt is not valid base64".toList)
      | some salt => libs.deriveKey pass salt mCost tCost pCost
    | .keychain => .error (.keychain "this vault is passphrase-protected".toList)

/-! ### Reading -/

/-- The secrets of an envelope. -/
def openSecrets (libs : Libraries) (key : Key) (file : VaultFile) : Except VaultError Secrets :=
  match libs.b64Decode file.nonce with
  | none => .error (.malformed "nonce is not valid base64".toList)
  | some nonce =>
    match libs.b64Decode file.ciphertext with
    | none => .error (.malformed "ciphertext is not valid base64".toList)
    | some ciphertext =>
      match toBytes 24 nonce with
      | none => .error (.malformed "nonce is the wrong length".toList)
      | some nonce =>
        match libs.decrypt key nonce ciphertext with
        | none => .error .decrypt
        | some plaintext => (libs.parseSecrets plaintext).mapError .malformed

/-- Open an existing vault. -/
def openExisting (libs : Libraries) (keychain : Text → Except Text Text) (source : KeySource)
    (bytes : List UInt8) : Except VaultError Vault :=
  match Utf8.decode? bytes with
  | none => .error (.io "stream did not contain valid UTF-8".toList)
  | some text =>
    match libs.parseFile text with
    | .error message => .error (.malformed message)
    | .ok file =>
      if file.version ≠ formatVersion then .error (.version file.version)
      else
        match fileKey libs keychain source file.id file.kdf with
        | .error error => .error error
        | .ok key =>
          match openSecrets libs key file with
          | .error error => .error error
          | .ok secrets =>
            .ok { id := file.id, key, kdf := file.kdf, secrets, dirty := false }

/-! ### Changing -/

namespace Vault

/-- `Vault::get`. -/
def get (vault : Vault) (name : Text) : Option Text := vault.secrets.get? name

/-- `Vault::set`, in memory. -/
def set (vault : Vault) (name value : Text) : Vault :=
  { vault with secrets := vault.secrets.insert name value, dirty := true }

/-- Remove a name, and whether it was there. -/
def remove (vault : Vault) (name : Text) : Bool × Vault :=
  let removed := vault.secrets.containsKey name
  (removed, { vault with secrets := vault.secrets.erase name, dirty := vault.dirty || removed })

/-! ### Writing -/

/-- The envelope of a vault. -/
def envelope (libs : Libraries) (vault : Vault) (nonce : Nonce) : Option VaultFile :=
  (libs.encrypt vault.key nonce (libs.renderSecrets vault.secrets)).map fun ciphertext =>
    { version := formatVersion, id := vault.id, kdf := vault.kdf,
      nonce := libs.b64Encode nonce, ciphertext := libs.b64Encode ciphertext }

/-- The bytes that a save writes. -/
def saved (libs : Libraries) (vault : Vault) (nonce : Nonce) : Option (List UInt8) :=
  (vault.envelope libs nonce).map fun file => Utf8.encode (libs.renderFile file)

/-- Write the vault. `fault` says where the write fails, if it does; a directory that cannot be
created is a fault before the opening. -/
def save (libs : Libraries) (vault : Vault) (nonce : Nonce) (fault : Option Fault)
    (platform : Platform) : Except VaultError Unit × Platform :=
  match vault.saved libs nonce with
  | none => (.error .decrypt, platform)
  | some bytes =>
    (if fault = none then .ok () else .error (.io "write failed".toList),
      { platform with file := write platform.file bytes fault })

/-- Write the vault if it was changed. -/
def saveIfDirty (libs : Libraries) (vault : Vault) (nonce : Nonce) (fault : Option Fault)
    (platform : Platform) : Except VaultError Unit × Vault × Platform :=
  if vault.dirty then
    match vault.save libs nonce fault platform with
    | (.ok (), platform) => (.ok (), { vault with dirty := false }, platform)
    | (.error error, platform) => (.error error, vault, platform)
  else (.ok (), vault, platform)

end Vault

/-! ### Opening -/

/-- The id of a new vault: sixteen hexadecimal digits. -/
def vaultId (n : UInt64) : Text := paddedHex 16 n.toNat

/-- A new key, kept in the keychain when that is the source. -/
def newKey (libs : Libraries) (source : KeySource) (drawn : Drawn) (platform : Platform) :
    Except VaultError (Key × Kdf) × Platform :=
  match source with
  | .keychain =>
    match platform.refusal with
    | some message => (.error (.keychain message), platform)
    | none =>
      (.ok (drawn.key, .keychain), { platform with
        keychain := Function.update platform.keychain (vaultId drawn.id)
          (.ok (libs.b64Encode drawn.key)) })
  | .passphrase pass =>
    if utf8Len pass < 8 then (.error .weakPassphrase, platform)
    else
      (match libs.deriveKey pass drawn.salt argonMCost argonTCost argonPCost with
        | .ok key => .ok (key,
          .argon2id (libs.b64Encode drawn.salt) argonMCost argonTCost argonPCost)
        | .error error => .error error, platform)

/-- Create an empty vault. -/
def create (libs : Libraries) (source : KeySource) (drawn : Drawn) (fault : Option Fault)
    (platform : Platform) : Except VaultError Vault × Platform :=
  match newKey libs source drawn platform with
  | (.error error, platform) => (.error error, platform)
  | (.ok (key, kdf), platform) =>
    let vault : Vault :=
      { id := vaultId drawn.id, key, kdf, secrets := SortedMap.empty, dirty := true }
    match vault.save libs drawn.nonce fault platform with
    | (.error error, platform) => (.error error, platform)
    -- Written to disk, so no longer pending.
    | (.ok (), platform) => (.ok { vault with dirty := false }, platform)

/-- Open an existing vault, or create an empty one. -/
def openVault (libs : Libraries) (source : KeySource) (drawn : Drawn) (fault : Option Fault)
    (platform : Platform) : Except VaultError Vault × Platform :=
  match platform.file with
  | none => create libs source drawn fault platform
  | some bytes => (openExisting libs platform.keychain source bytes, platform)

end Gabriel.Vaults

import Gabriel.Proofs.VaultStore

/-!
# `Gabriel.Proofs.VaultFault`: a save that fails

A save opens the file, which empties it, and then writes the new envelope in its place. There is no
second file and no rename, so between these two steps the disk holds no copy of the secrets.

Whether a later open finds the old secrets or the new ones (`Survives`) is decided by where the save
failed. A file with a part of an envelope does not open at all: its bytes may end inside a
character, and a part of an envelope is refused by the parser (`RejectsTorn`). The theorems:

* `openExisting_of_opensTo`: what a path with a file opens to is what its bytes open to.
* `openExisting_torn`: a part of an envelope does not open.
* `survives_iff`: for every vault and every place of the fault, a failed save leaves the old secrets
  or the new ones exactly when the write was not cut.
-/

set_option autoImplicit false

namespace Gabriel.Vaults

open Gabriel.Core Text FileWrite

/-- A later open of the vault succeeds, with the secrets before the save or with the new ones. -/
def Survives (libs : Libraries) (source : KeySource) (old new : Vault) (after : Platform) : Prop :=
  ∃ vault, OpensTo libs source after vault ∧
    (vault.secrets = old.secrets ∨ vault.secrets = new.secrets)

section Torn

variable {libs : Libraries} {source : KeySource} {keychain : Text → Except Text Text}

/-- A part of an envelope does not open. -/
theorem openExisting_torn (htorn : libs.RejectsTorn) {file : VaultFile} {torn : List UInt8}
    (hpart : torn <+: Utf8.encode (libs.renderFile file))
    (hne : torn ≠ Utf8.encode (libs.renderFile file)) :
    ∃ error, openExisting libs keychain source torn = .error error := by
  unfold openExisting
  cases htext : Utf8.decode? torn with
  | none => exact ⟨_, rfl⟩
  | some text =>
    have hencode : Utf8.encode text = torn := (Utf8.decode?_eq_some_iff torn text).mp htext
    have htextPart : text <+: libs.renderFile file := by
      obtain ⟨rest, hrest⟩ := hpart
      refine ⟨Utf8.decodeLossy rest, ?_⟩
      rw [← Utf8.decodeLossy_encode_append, hencode, hrest, Utf8.decodeLossy_encode]
    have htextNe : text ≠ libs.renderFile file := by
      intro hsame
      rw [← hencode, hsame] at hne
      exact hne rfl
    obtain ⟨message, hmessage⟩ := htorn file text htextPart htextNe
    dsimp only
    rw [hmessage]
    exact ⟨_, rfl⟩

/-- What a path with a file opens to is what its bytes open to. -/
theorem openExisting_of_opensTo {platform : Platform} {vault : Vault} {bytes : List UInt8}
    (hfile : platform.file = some bytes) (h : OpensTo libs source platform vault) :
    openExisting libs platform.keychain source bytes = .ok vault := by
  have hopen := h zeroDrawn none
  unfold openVault at hopen
  rw [hfile] at hopen
  exact (Prod.mk.inj hopen).1

end Torn

section Fault

variable {libs : Libraries} {source : KeySource} {platform : Platform} {old new : Vault}

/-- **A failed save leaves the old secrets or the new ones unless the write was cut.** For
libraries that keep their laws, every vault on disk, every change of its secrets in memory and
every point at which the save fails: a later open succeeds with the old secrets or the new ones if
and only if the failure came before the file was opened, or after its last byte. -/
theorem survives_iff (hlibs : libs.Correct) (htorn : libs.RejectsTorn) {bytes : List UInt8}
    (hfile : platform.file = some bytes)
    (hopen : openExisting libs platform.keychain source bytes = .ok old)
    (hid : new.id = old.id) (hkey : new.key = old.key) (hkdf : new.kdf = old.kdf)
    (nonce : Nonce) (fault : Fault) :
    Survives libs source old new (new.save libs nonce (some fault) platform).2 ↔
      ∀ written, new.saved libs nonce = some written → fault.harmless written := by
  have hfileKey : fileKey libs platform.keychain source new.id new.kdf = .ok new.key := by
    rw [hid, hkey, hkdf]
    exact (key_of_openExisting hopen).2
  have hold : OpensTo libs source platform old := opensTo_of_openExisting hfile hopen
  unfold Vault.save
  cases hsaved : new.saved libs nonce with
  | none =>
    -- The cipher refused the message, and nothing was written.
    refine iff_of_true ⟨old, hold, Or.inl rfl⟩ fun written hwritten => ?_
    exact nomatch hwritten
  | some written =>
    dsimp only
    constructor
    · rintro ⟨vault, hopens, -⟩ other hother
      rw [← Option.some.inj hother]
      by_contra hcut
      obtain ⟨torn, htornFile, hpart, hne⟩ := @write_of_not_harmless platform.file _ _ hcut
      obtain ⟨envelope, -, rfl⟩ := Option.map_eq_some_iff.mp hsaved
      obtain ⟨error, herror⟩ := @openExisting_torn libs source platform.keychain htorn envelope torn
        hpart hne
      have hreads := openExisting_of_opensTo htornFile hopens
      rw [herror] at hreads
      exact nomatch hreads
    · intro hharmless
      rcases write_of_harmless (hharmless written rfl) with hsame | hwhole
      · rw [hsame]
        exact ⟨old, hold, Or.inl rfl⟩
      · rw [hwhole]
        exact ⟨_, opensTo_of_openExisting rfl (openExisting_saved hlibs hfileKey hsaved),
          Or.inr rfl⟩

end Fault

/-! ### A new vault and a full disk -/

/-- A vault with one secret, not saved yet. -/
def changedVault : Vault := newVault.set "TOKEN".toList "a".toList

/-- The file of the new vault. -/
theorem file_newPlatform :
    ∃ bytes, newPlatform.file = some bytes ∧
      openExisting jsonLibs newPlatform.keychain (.passphrase samplePass) bytes = .ok newVault := by
  refine ⟨_, rfl, ?_⟩
  have hkey : fileKey jsonLibs newPlatform.keychain (.passphrase samplePass) newVault.id
      newVault.kdf = .ok newVault.key := by
    exact (held_openVault jsonLibs_correct openVault_new).1.key
  exact openExisting_saved jsonLibs_correct hkey rfl

/-- A save that fails to open the file, or to sync what it wrote, loses nothing. -/
theorem survives_opening_syncing :
    Survives jsonLibs (.passphrase samplePass) newVault changedVault
      (changedVault.save jsonLibs zeroDrawn.nonce (some .opening) newPlatform).2 ∧
    Survives jsonLibs (.passphrase samplePass) newVault changedVault
      (changedVault.save jsonLibs zeroDrawn.nonce (some .syncing) newPlatform).2 := by
  obtain ⟨bytes, hfile, hopen⟩ := file_newPlatform
  have hid : changedVault.id = newVault.id := rfl
  have hkey : changedVault.key = newVault.key := rfl
  have hkdf : changedVault.kdf = newVault.kdf := rfl
  have hiff := survives_iff jsonLibs_correct jsonLibs_rejectsTorn hfile hopen hid hkey hkdf
    zeroDrawn.nonce
  exact ⟨(hiff .opening).mpr fun _ _ => trivial, (hiff .syncing).mpr fun _ _ => trivial⟩

/-- A save that fails before its first byte leaves an empty file, which does not open. -/
theorem not_survives_full_disk :
    ¬ Survives jsonLibs (.passphrase samplePass) newVault changedVault
      (changedVault.save jsonLibs zeroDrawn.nonce (some (.writing 0)) newPlatform).2 := by
  rintro ⟨vault, hopens, -⟩
  have hempty : (changedVault.save jsonLibs zeroDrawn.nonce (some (.writing 0)) newPlatform).2.file
      = some [] := rfl
  have hreads := openExisting_of_opensTo hempty hopens
  let envelope : VaultFile := ⟨formatVersion, [], .keychain, [], []⟩
  have hne : ([] : List UInt8) ≠ Utf8.encode (jsonLibs.renderFile envelope) := by
    intro h
    have hnil : [] = fileJson envelope := Utf8.encode_injective h
    exact nomatch hnil
  obtain ⟨error, herror⟩ := @openExisting_torn jsonLibs (.passphrase samplePass)
    newPlatform.keychain jsonLibs_rejectsTorn envelope [] List.nil_prefix hne
  rw [show (changedVault.save jsonLibs zeroDrawn.nonce (some (.writing 0)) newPlatform).2.keychain
    = newPlatform.keychain from rfl, herror] at hreads
  exact nomatch hreads

end Gabriel.Vaults

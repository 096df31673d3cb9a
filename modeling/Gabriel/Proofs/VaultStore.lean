import Gabriel.Proofs.VaultLibraries

/-!
# `Gabriel.Proofs.VaultStore`: the vault, its map and its file

An open vault holds its secrets in memory, says with a flag whether they were changed, and has a
file on disk. `Held` is the invariant that ties the three together: the key is the one that the
file asks for, and the file opens to the same vault with the secrets of some earlier moment, which
are those in memory while the flag is clear.

The libraries keep their laws (`Libraries.Correct`). Every operation keeps `Held`, so every run
does, and what the operations owe their caller (`Kept`) is read off it: what was set is there, what
was saved is what the path opens to, and a save that nothing stops succeeds. The theorems:

* `openExisting_saved`: what a save wrote opens to the vault that was saved.
* `held_create`, `held_openVault`: an opened vault is held.
* `save_of_encrypt`: a save that nothing stops succeeds when the cipher takes the message.
* `held_step`, `held_run`: every operation, and every run, keeps the vault held.
* `get_run`: what a run leaves under a name.
* `kept_run`: the vault, its flag and its file stay in step over every sequence of operations.
-/

set_option autoImplicit false

namespace Gabriel.Vaults

open Gabriel.Core Text FileWrite

/-! ### Opening what was saved -/

/-- Bytes of the right number are kept. -/
theorem toBytes_val {n : Nat} (bytes : ByteArrayOf n) : toBytes n bytes = some bytes :=
  dif_pos bytes.2

section RoundTrip

variable {libs : Libraries} {keychain : Text → Except Text Text} {source : KeySource}
  {vault : Vault}

/-- The envelope of a vault holds its secrets. -/
theorem openSecrets_envelope (hlibs : libs.Correct) {nonce : Nonce} {file : VaultFile}
    (h : vault.envelope libs nonce = some file) :
    openSecrets libs vault.key file = .ok vault.secrets := by
  obtain ⟨ciphertext, hencrypt, rfl⟩ := Option.map_eq_some_iff.mp h
  unfold openSecrets
  dsimp only
  rw [hlibs.b64Decode_encode]
  dsimp only
  rw [hlibs.b64Decode_encode]
  dsimp only
  rw [toBytes_val]
  dsimp only
  rw [hlibs.decrypt_encrypt _ _ _ _ hencrypt]
  dsimp only
  rw [hlibs.parseSecrets_render]
  rfl

/-- What a save wrote opens to the vault that was saved. -/
theorem openExisting_saved (hlibs : libs.Correct)
    (hkey : fileKey libs keychain source vault.id vault.kdf = .ok vault.key) {nonce : Nonce}
    {bytes : List UInt8} (h : vault.saved libs nonce = some bytes) :
    openExisting libs keychain source bytes = .ok { vault with dirty := false } := by
  obtain ⟨file, hfile, rfl⟩ := Option.map_eq_some_iff.mp h
  have hsecrets := openSecrets_envelope hlibs hfile
  obtain ⟨ciphertext, -, rfl⟩ := Option.map_eq_some_iff.mp hfile
  unfold openExisting
  rw [(Utf8.decode?_eq_some_iff _ _).mpr rfl]
  dsimp only
  rw [hlibs.parseFile_render]
  dsimp only
  rw [if_neg (not_not.mpr rfl), hkey]
  dsimp only
  rw [hsecrets]

/-- An open vault is clean, and has the key that its file asks for. -/
theorem key_of_openExisting {bytes : List UInt8}
    (h : openExisting libs keychain source bytes = .ok vault) :
    vault.dirty = false ∧ fileKey libs keychain source vault.id vault.kdf = .ok vault.key := by
  unfold openExisting at h
  split at h
  · exact nomatch h
  · split at h
    · exact nomatch h
    · split at h
      · exact nomatch h
      · split at h
        · exact nomatch h
        · rename_i key hkey
          split at h
          · exact nomatch h
          · rw [← Except.ok.inj h]
            exact ⟨rfl, hkey⟩

end RoundTrip

/-! ### The file behind a vault -/

/-- Opening the path gives this vault, and changes nothing. -/
def OpensTo (libs : Libraries) (source : KeySource) (platform : Platform) (vault : Vault) : Prop :=
  ∀ drawn fault, openVault libs source drawn fault platform = (.ok vault, platform)

/-- A vault and the platform it is on. -/
abbrev Session := Vault × Platform

/-- What holds of a vault between two operations: it has the key that its file asks for, and the
file opens to it, with the secrets of the last save. They are those in memory while the vault is
clean. -/
structure Held (libs : Libraries) (source : KeySource) (session : Session) : Prop where
  key : fileKey libs session.2.keychain source session.1.id session.1.kdf = .ok session.1.key
  file : ∃ held, OpensTo libs source session.2
      { session.1 with secrets := held, dirty := false } ∧
    (session.1.dirty = false → held = session.1.secrets)

section Session

variable {libs : Libraries} {source : KeySource} {vault : Vault} {platform : Platform}

/-- An existing file opens as its bytes do. -/
theorem opensTo_of_openExisting {bytes : List UInt8} (hfile : platform.file = some bytes)
    (h : openExisting libs platform.keychain source bytes = .ok vault) :
    OpensTo libs source platform vault := by
  intro drawn fault
  unfold openVault
  rw [hfile]
  dsimp only
  rw [h]

/-- After a save that succeeds, the path opens to the vault that was saved. -/
theorem opensTo_save (hlibs : libs.Correct)
    (hkey : fileKey libs platform.keychain source vault.id vault.kdf = .ok vault.key)
    {nonce : Nonce} (h : (vault.save libs nonce none platform).1 = .ok ()) :
    OpensTo libs source (vault.save libs nonce none platform).2 { vault with dirty := false } := by
  unfold Vault.save at h ⊢
  cases hsaved : vault.saved libs nonce with
  | none =>
    rw [hsaved] at h
    exact nomatch h
  | some bytes =>
    dsimp only
    exact opensTo_of_openExisting rfl (openExisting_saved hlibs hkey hsaved)

/-- A save without a fault changes nothing but the file, and nothing when it fails. -/
theorem save_none (vault : Vault) (nonce : Nonce) (platform : Platform) :
    ((vault.save libs nonce none platform).1 = .ok () ∧
      (vault.save libs nonce none platform).2.keychain = platform.keychain) ∨
    (∃ error, vault.save libs nonce none platform = (.error error, platform)) := by
  unfold Vault.save
  cases vault.saved libs nonce with
  | none => exact Or.inr ⟨_, rfl⟩
  | some bytes => exact Or.inl ⟨rfl, rfl⟩

/-- A save that nothing stops succeeds when the cipher takes the message. -/
theorem save_of_encrypt {vault : Vault} {nonce : Nonce}
    (h : (libs.encrypt vault.key nonce (libs.renderSecrets vault.secrets)).isSome = true)
    (platform : Platform) : (vault.save libs nonce none platform).1 = .ok () := by
  obtain ⟨ciphertext, hseal⟩ := Option.isSome_iff_exists.mp h
  unfold Vault.save Vault.saved Vault.envelope
  rw [hseal]
  rfl

/-- A save changes nothing when the cipher refuses the message. -/
theorem save_of_refused {vault : Vault} {nonce : Nonce}
    (h : libs.encrypt vault.key nonce (libs.renderSecrets vault.secrets) = none)
    (fault : Option Fault) (platform : Platform) :
    vault.save libs nonce fault platform = (.error .decrypt, platform) := by
  unfold Vault.save Vault.saved Vault.envelope
  rw [h]
  rfl

/-- A vault that was just opened is held. -/
theorem held_of_openExisting {bytes : List UInt8} (hfile : platform.file = some bytes)
    (h : openExisting libs platform.keychain source bytes = .ok vault) :
    Held libs source (vault, platform) := by
  obtain ⟨hclean, hkey⟩ := key_of_openExisting h
  refine ⟨hkey, vault.secrets, ?_, fun _ => rfl⟩
  have hvault : { vault with secrets := vault.secrets, dirty := false } = vault := by
    rw [← hclean]
  rw [hvault]
  exact opensTo_of_openExisting hfile h

/-- The key of a new vault is the one that its file asks for. -/
theorem fileKey_newKey (hlibs : libs.Correct) {drawn : Drawn} {key : Key} {kdf : Kdf}
    {after : Platform} (h : newKey libs source drawn platform = (.ok (key, kdf), after)) :
    fileKey libs after.keychain source (vaultId drawn.id) kdf = .ok key := by
  unfold newKey at h
  -- The key comes from the keychain or from a passphrase, as the file will say.
  cases source with
  | keychain =>
    dsimp only at h
    cases hrefusal : platform.refusal with
    | some message =>
      rw [hrefusal] at h
      exact nomatch h
    -- The keychain keeps what was just put under the id.
    | none =>
      rw [hrefusal] at h
      obtain ⟨hok, rfl⟩ := Prod.mk.inj h
      obtain ⟨rfl, rfl⟩ := Prod.mk.inj (Except.ok.inj hok)
      unfold fileKey keychainKey
      dsimp only
      rw [Function.update_self]
      dsimp only
      rw [hlibs.b64Decode_encode, Option.bind_some, toBytes_val]
  -- A weak passphrase is refused, and any other one is derived with the salt in the file.
  | passphrase pass =>
    dsimp only at h
    by_cases hweak : utf8Len pass < 8
    · rw [if_pos hweak] at h
      exact nomatch h
    · rw [if_neg hweak] at h
      cases hderive : libs.deriveKey pass drawn.salt argonMCost argonTCost argonPCost with
      | error error =>
        rw [hderive] at h
        exact nomatch h
      | ok derived =>
        rw [hderive] at h
        obtain ⟨hok, rfl⟩ := Prod.mk.inj h
        obtain ⟨rfl, rfl⟩ := Prod.mk.inj (Except.ok.inj hok)
        unfold fileKey
        dsimp only
        rw [hlibs.b64Decode_encode]
        exact hderive

/-- A vault that was just created is held, and empty. -/
theorem held_create (hlibs : libs.Correct) {drawn : Drawn} {after : Platform}
    (h : create libs source drawn none platform = (.ok vault, after)) :
    Held libs source (vault, after) ∧ vault.secrets = SortedMap.empty := by
  unfold create at h
  rcases hnew : newKey libs source drawn platform with ⟨_ | ⟨key, kdf⟩, middle⟩
  · rw [hnew] at h
    exact nomatch h
  · rw [hnew] at h
    dsimp only at h
    -- The key that was made is the one the file asks for.
    have hkey := fileKey_newKey hlibs hnew
    generalize hfresh : (Vault.mk (vaultId drawn.id) key kdf SortedMap.empty true) = fresh at h
    have hfreshKey : fileKey libs middle.keychain source fresh.id fresh.kdf = .ok fresh.key := by
      rw [← hfresh]
      exact hkey
    -- The vault is only there when the save was done, and then the path opens to it.
    rcases hsave : fresh.save libs drawn.nonce none middle with ⟨_ | ⟨⟨⟩⟩, written⟩
    · rw [hsave] at h
      exact nomatch h
    · rw [hsave] at h
      obtain ⟨hok, rfl⟩ := Prod.mk.inj h
      rw [← Except.ok.inj hok]
      have hdone : (fresh.save libs drawn.nonce none middle).1 = .ok () := by rw [hsave]
      have hopens := opensTo_save hlibs hfreshKey hdone
      -- A save does not change the keychain.
      have hkeychain : written.keychain = middle.keychain := by
        rcases save_none fresh drawn.nonce middle with ⟨-, hsame⟩ | ⟨error, herror⟩
        · rwa [hsave] at hsame
        · rw [hsave] at herror
          exact nomatch herror
      rw [hsave] at hopens
      subst hfresh
      refine ⟨⟨?_, SortedMap.empty, hopens, fun _ => rfl⟩, rfl⟩
      show fileKey libs written.keychain source _ _ = _
      rw [hkeychain]
      exact hfreshKey

/-- A vault that was just opened is held; a new one is empty. -/
theorem held_openVault (hlibs : libs.Correct) {drawn : Drawn} {opened : Platform}
    (h : openVault libs source drawn none platform = (.ok vault, opened)) :
    Held libs source (vault, opened) ∧
      (platform.file = none → vault.secrets = SortedMap.empty) := by
  unfold openVault at h
  cases hfile : platform.file with
  | none =>
    rw [hfile] at h
    obtain ⟨hheld, hempty⟩ := held_create hlibs h
    exact ⟨hheld, fun _ => hempty⟩
  | some bytes =>
    rw [hfile] at h
    obtain ⟨hok, rfl⟩ := Prod.mk.inj h
    exact ⟨held_of_openExisting hfile hok, fun hnone => nomatch hnone⟩

end Session

/-! ### Operations -/

/-- What a caller does with an open vault. -/
inductive VaultOp where
  | set (name value : Text)
  | remove (name : Text)
  | get (name : Text)
  | save (nonce : Nonce)
  | saveIfDirty (nonce : Nonce)

/-- The vault and the platform after an operation whose writes succeed. -/
def VaultOp.step (libs : Libraries) (session : Session) : VaultOp → Session
  | .set name value => (session.1.set name value, session.2)
  | .remove name => ((session.1.remove name).2, session.2)
  | .get _ => session
  | .save nonce => (session.1, (session.1.save libs nonce none session.2).2)
  | .saveIfDirty nonce => (session.1.saveIfDirty libs nonce none session.2).2

/-- The vault and the platform after some operations. -/
def runOps (libs : Libraries) (session : Session) (ops : List VaultOp) : Session :=
  ops.foldl (VaultOp.step libs) session

/-- What an operation leaves under a name. -/
def VaultOp.leaves (name : Text) (before : Option Text) : VaultOp → Option Text
  | .set other value => if name = other then some value else before
  | .remove other => if name = other then none else before
  | _ => before

/-- The value of the last `set` of a name that no `remove` follows, or the value from the start
when no operation is about the name. -/
def lastSet (name : Text) (start : Option Text) (ops : List VaultOp) : Option Text :=
  ops.foldl (VaultOp.leaves name) start

section Steps

variable {libs : Libraries} {source : KeySource} {session : Session}

/-- A change in memory keeps the file, and clears no flag. -/
theorem held_change (h : Held libs source session) {vault : Vault}
    (hid : vault.id = session.1.id) (hkey : vault.key = session.1.key)
    (hkdf : vault.kdf = session.1.kdf)
    (hclean : vault.dirty = false →
      session.1.dirty = false ∧ vault.secrets = session.1.secrets) :
    Held libs source (vault, session.2) := by
  obtain ⟨held, hopens, hheld⟩ := h.file
  refine ⟨?_, held, ?_, ?_⟩
  · show fileKey libs session.2.keychain source vault.id vault.kdf = .ok vault.key
    rw [hid, hkey, hkdf, h.key]
  · show OpensTo libs source session.2 ⟨vault.id, vault.key, vault.kdf, held, false⟩
    rw [hid, hkey, hkdf]
    exact hopens
  · intro hdirty
    obtain ⟨hbefore, hsecrets⟩ := hclean hdirty
    rw [hheld hbefore, hsecrets]

/-- A save keeps the vault held. -/
theorem held_save (hlibs : libs.Correct) (h : Held libs source session) (nonce : Nonce) :
    Held libs source (session.1, (session.1.save libs nonce none session.2).2) := by
  rcases save_none session.1 nonce session.2 with ⟨hdone, hkeychain⟩ | ⟨error, herror⟩
  · refine ⟨?_, session.1.secrets, opensTo_save hlibs h.key hdone, fun _ => rfl⟩
    show fileKey libs (session.1.save libs nonce none session.2).2.keychain source _ _ = _
    rw [hkeychain, h.key]
  · rw [herror]
    exact h

/-- `save_if_dirty` does nothing to a clean vault. -/
theorem saveIfDirty_clean {vault : Vault} (h : vault.dirty = false) (nonce : Nonce)
    (fault : Option Fault) (platform : Platform) :
    vault.saveIfDirty libs nonce fault platform = (.ok (), vault, platform) := by
  unfold Vault.saveIfDirty
  rw [h, if_neg Bool.false_ne_true]

/-- What `save_if_dirty` does when the writes succeed: nothing to a clean vault, and a save to a
dirty one, which is then clean unless the save failed. -/
theorem saveIfDirty_cases (vault : Vault) (nonce : Nonce) (platform : Platform) :
    (vault.dirty = false ∧
      vault.saveIfDirty libs nonce none platform = (.ok (), vault, platform)) ∨
    ((vault.save libs nonce none platform).1 = .ok () ∧
      vault.saveIfDirty libs nonce none platform
        = (.ok (), { vault with dirty := false }, (vault.save libs nonce none platform).2)) ∨
    (∃ error, vault.save libs nonce none platform = (.error error, platform) ∧
      vault.saveIfDirty libs nonce none platform = (.error error, vault, platform)) := by
  cases hdirty : vault.dirty with
  | false => exact Or.inl ⟨rfl, saveIfDirty_clean hdirty nonce none platform⟩
  | true =>
    right
    unfold Vault.saveIfDirty
    rw [if_pos hdirty]
    rcases save_none vault nonce platform with ⟨hdone, -⟩ | ⟨error, herror⟩
    · rcases hsave : vault.save libs nonce none platform with ⟨_ | ⟨⟨⟩⟩, written⟩
      · rw [hsave] at hdone
        exact nomatch hdone
      · exact Or.inl ⟨rfl, rfl⟩
    · rw [herror]
      exact Or.inr ⟨error, rfl, rfl⟩

/-- Every operation keeps the vault held. -/
theorem held_step (hlibs : libs.Correct) (h : Held libs source session) (op : VaultOp) :
    Held libs source (op.step libs session) := by
  cases op with
  | set name value => exact held_change h rfl rfl rfl fun hclean => nomatch hclean
  | remove name =>
    refine held_change h rfl rfl rfl fun hclean => ?_
    obtain ⟨hbefore, habsent⟩ := Bool.or_eq_false_iff.mp hclean
    exact ⟨hbefore, SortedMap.erase_of_not_containsKey habsent⟩
  | get name => exact h
  | save nonce => exact held_save hlibs h nonce
  | saveIfDirty nonce =>
    show Held libs source (session.1.saveIfDirty libs nonce none session.2).2
    rcases saveIfDirty_cases session.1 nonce session.2 with
      ⟨-, hidle⟩ | ⟨hdone, hsaved⟩ | ⟨error, -, herror⟩
    · rw [hidle]
      exact h
    · rw [hsaved]
      have hheld := held_save hlibs h nonce
      exact ⟨hheld.key, session.1.secrets, opensTo_save hlibs h.key hdone, fun _ => rfl⟩
    · rw [herror]
      exact h

/-- Every run keeps the vault held. -/
theorem held_run (hlibs : libs.Correct) (h : Held libs source session) (ops : List VaultOp) :
    Held libs source (runOps libs session ops) := by
  induction ops generalizing session with
  | nil => exact h
  | cons op ops ih => exact ih (held_step hlibs h op)

/-- What an operation leaves under a name, in the vault. -/
theorem get_step (op : VaultOp) (name : Text) :
    -- Along the operations; a save leaves the secrets alone, whether it is done or not.
    (op.step libs session).1.get name = op.leaves name (session.1.get name) := by
  cases op with
  | set other value =>
    show (session.1.secrets.insert other value).get? name = if name = other then some value else _
    rw [SortedMap.get?_insert]
    by_cases hname : name = other
    · rw [if_pos hname, if_pos hname]
    · rw [if_neg hname, if_neg hname]
      rfl
  | remove other =>
    show (session.1.secrets.erase other).get? name = if name = other then none else _
    rw [SortedMap.get?_erase]
    by_cases hname : name = other
    · rw [if_pos hname, if_pos hname]
    · rw [if_neg hname, if_neg hname]
      rfl
  | get other => rfl
  | save nonce => rfl
  | saveIfDirty nonce =>
    show (session.1.saveIfDirty libs nonce none session.2).2.1.get name = session.1.get name
    rcases saveIfDirty_cases session.1 nonce session.2 with
      ⟨-, hidle⟩ | ⟨-, hsaved⟩ | ⟨error, -, herror⟩
    · rw [hidle]
    · rw [hsaved]
      rfl
    · rw [herror]

/-- What a run leaves under a name. -/
theorem get_run (ops : List VaultOp) (name : Text) :
    (runOps libs session ops).1.get name = lastSet name (session.1.get name) ops := by
  induction ops generalizing session with
  | nil => rfl
  | cons op ops ih =>
    show (runOps libs (op.step libs session) ops).1.get name
      = lastSet name (op.leaves name (session.1.get name)) ops
    rw [ih, get_step]

/-! ### What a vault owes its caller -/

/-- What holds of a vault after some operations. -/
structure Kept (libs : Libraries) (source : KeySource) (start : Text → Option Text)
    (ops : List VaultOp) (session : Session) : Prop where
  /-- A clean vault is what the path opens to. -/
  clean : session.1.dirty = false → OpensTo libs source session.2 session.1
  /-- After a save, the path opens to the same secrets, key and id. -/
  saved : ∀ nonce, (session.1.save libs nonce none session.2).1 = .ok () →
    OpensTo libs source (session.1.save libs nonce none session.2).2
      { session.1 with dirty := false }
  /-- After a `save_if_dirty` that succeeds, too; and the vault is clean. -/
  savedIfDirty : ∀ nonce, (session.1.saveIfDirty libs nonce none session.2).1 = .ok () →
    (session.1.saveIfDirty libs nonce none session.2).2.1 = { session.1 with dirty := false } ∧
    OpensTo libs source (session.1.saveIfDirty libs nonce none session.2).2.2
      { session.1 with dirty := false }
  /-- Either succeeds when the cipher takes the message. -/
  succeeds : ∀ nonce, (libs.encrypt session.1.key nonce
      (libs.renderSecrets session.1.secrets)).isSome = true →
    (session.1.save libs nonce none session.2).1 = .ok () ∧
    (session.1.saveIfDirty libs nonce none session.2).1 = .ok ()
  /-- Otherwise the save fails, and the path keeps what it has. -/
  refused : ∀ nonce fault, libs.encrypt session.1.key nonce
      (libs.renderSecrets session.1.secrets) = none →
    session.1.save libs nonce fault session.2 = (.error .decrypt, session.2)
  get : ∀ name, session.1.get name = lastSet name (start name) ops
  remove : ∀ name, (session.1.remove name).1 = true ↔ (session.1.get name).isSome
  /-- A clean vault is not written, even where a write would fail. -/
  idle : session.1.dirty = false → ∀ nonce fault,
    session.1.saveIfDirty libs nonce fault session.2 = (.ok (), session.1, session.2)

/-- A clean vault that is held is what the path opens to. -/
theorem opensTo_of_clean (h : Held libs source session) (hclean : session.1.dirty = false) :
    OpensTo libs source session.2 session.1 := by
  obtain ⟨held, hopens, hheld⟩ := h.file
  rw [hheld hclean] at hopens
  have hvault : { session.1 with secrets := session.1.secrets, dirty := false } = session.1 := by
    rw [← hclean]
  rwa [hvault] at hopens

/-- **The vault, its flag and its file stay in step.** For libraries that keep their laws, and
every sequence of operations on a vault that was opened, new or existing: while the vault is clean
the path opens to it, a save makes the path open to it and succeeds when the cipher takes the
message, `get` finds what was last set, `remove` says whether the name was there, and a clean vault
is not written. -/
theorem kept_run (hlibs : libs.Correct) {platform opened : Platform} {drawn : Drawn}
    {vault : Vault}
    (hopen : openVault libs source drawn none platform = (.ok vault, opened))
    (ops : List VaultOp) :
    (platform.file = none → vault.secrets = SortedMap.empty) ∧
      Kept libs source vault.get ops (runOps libs (vault, opened) ops) := by
  -- The invariant holds at the start, and every operation keeps it.
  obtain ⟨hstart, hempty⟩ := held_openVault hlibs hopen
  have hheld := held_run hlibs hstart ops
  refine ⟨hempty, ?_⟩
  generalize hrun : runOps libs (vault, opened) ops = session at hheld
  -- Each field of the statement is read off the invariant at the end of the run.
  refine ⟨opensTo_of_clean hheld, fun nonce => opensTo_save hlibs hheld.key, ?_, ?_,
    fun nonce fault hrefused => save_of_refused hrefused fault session.2, ?_,
    fun name => Iff.rfl, ?_⟩
  · intro nonce hdone
    -- An idle save has a clean vault, and a done one leaves the path in step.
    rcases saveIfDirty_cases session.1 nonce session.2 with
      ⟨hclean, hidle⟩ | ⟨hsave, hsaved⟩ | ⟨error, -, herror⟩
    · have hvault : { session.1 with dirty := false } = session.1 := by rw [← hclean]
      rw [hidle, hvault]
      exact ⟨rfl, opensTo_of_clean hheld hclean⟩
    · rw [hsaved]
      exact ⟨rfl, opensTo_save hlibs hheld.key hsave⟩
    · rw [herror] at hdone
      exact nomatch hdone
  · intro nonce hseal
    have hsave := save_of_encrypt hseal session.2
    refine ⟨hsave, ?_⟩
    -- The save was done, so the one that failed is excluded.
    rcases saveIfDirty_cases session.1 nonce session.2 with
      ⟨-, hidle⟩ | ⟨-, hsaved⟩ | ⟨error, herror, -⟩
    · rw [hidle]
    · rw [hsaved]
    · rw [herror] at hsave
      exact nomatch hsave
  · intro name
    rw [← hrun, get_run]
  · intro hclean nonce fault
    exact saveIfDirty_clean hclean nonce fault session.2

end Steps

/-! ### A new vault -/

/-- A passphrase. -/
def samplePass : Text := "correct horse".toList

/-- A platform without a vault and without a keychain. -/
def emptyPlatform : Platform where
  file := none
  keychain _ := .error "no keychain".toList

/-- Random values that are all zero. -/
def zeroDrawn : Drawn where
  id := 0
  key := ⟨List.replicate 32 0, List.length_replicate⟩
  salt := ⟨List.replicate 16 0, List.length_replicate⟩
  nonce := ⟨List.replicate 24 0, List.length_replicate⟩

/-- The vault that is created there. -/
def newVault : Vault where
  id := vaultId zeroDrawn.id
  key := padKey samplePass
  kdf := .argon2id (latinEncode zeroDrawn.salt) argonMCost argonTCost argonPCost
  secrets := SortedMap.empty
  dirty := false

/-- The platform with its file. -/
noncomputable def newPlatform : Platform :=
  { emptyPlatform with file := newVault.saved jsonLibs zeroDrawn.nonce }

/-- Opening a path without a file creates the vault. -/
theorem openVault_new :
    openVault jsonLibs (.passphrase samplePass) zeroDrawn none emptyPlatform
      = (.ok newVault, newPlatform) := by
  have hkey : newKey jsonLibs (.passphrase samplePass) zeroDrawn emptyPlatform
      = (.ok (newVault.key, newVault.kdf), emptyPlatform) := by
    unfold newKey
    dsimp only
    rw [if_neg (by decide)]
    rfl
  show create jsonLibs (.passphrase samplePass) zeroDrawn none emptyPlatform = _
  unfold create
  rw [hkey]
  rfl

/-- A secret that is set, saved, set again, removed and saved. -/
theorem kept_run_new :
    Kept jsonLibs (.passphrase samplePass) newVault.get
      [.set "TOKEN".toList "a".toList, .save zeroDrawn.nonce, .set "TOKEN".toList "b".toList,
        .saveIfDirty zeroDrawn.nonce, .remove "TOKEN".toList, .saveIfDirty zeroDrawn.nonce]
      (runOps jsonLibs (newVault, newPlatform)
        [.set "TOKEN".toList "a".toList, .save zeroDrawn.nonce, .set "TOKEN".toList "b".toList,
          .saveIfDirty zeroDrawn.nonce, .remove "TOKEN".toList, .saveIfDirty zeroDrawn.nonce]) :=
  (kept_run jsonLibs_correct openVault_new _).2

end Gabriel.Vaults

import Gabriel.Proofs.CaptureSummary
import Gabriel.Vault.Store

/-!
# `Gabriel.Proofs.VaultLibraries`: what the vault relies on

The vault calls a cipher, a key derivation, base64 and JSON. `Libraries.Correct` says that each
decoder reads what its encoder wrote, and `Libraries.RejectsTorn` that a part of an envelope is no
envelope.

`jsonLibs` keeps both promises: its documents are the JSON texts that the vault writes, and its
parsers read these texts and no others. An envelope is read from the front of a text, so neither a
second envelope nor a part of one can be the same text. The theorems:

* `natText_append_inj`: a number is read from the front of a text, up to a separator.
* `kdfJson_append_inj`, `fileJson_append_inj`: the source of the key, and the envelope.
* `secretsJson_injective`: the JSON of the secrets tells them.
* `jsonLibs_correct`: every decoder reads what its encoder wrote.
* `jsonLibs_rejectsTorn`: a part of an envelope is no envelope.
-/

set_option autoImplicit false

namespace Gabriel.Vaults

open Gabriel.Core Gabriel.Cli Text

/-! ### The libraries -/

/-- What the libraries promise: each decoder reads what its encoder wrote. -/
structure Libraries.Correct (libs : Libraries) : Prop where
  decrypt_encrypt : ∀ key nonce plaintext ciphertext,
    libs.encrypt key nonce plaintext = some ciphertext →
      libs.decrypt key nonce ciphertext = some plaintext
  b64Decode_encode : ∀ bytes, libs.b64Decode (libs.b64Encode bytes) = some bytes
  parseFile_render : ∀ file, libs.parseFile (libs.renderFile file) = .ok file
  parseSecrets_render : ∀ secrets, libs.parseSecrets (libs.renderSecrets secrets) = .ok secrets

/-- What the parser of the envelope promises about a file that was cut off. -/
def Libraries.RejectsTorn (libs : Libraries) : Prop :=
  ∀ file text, text <+: libs.renderFile file → text ≠ libs.renderFile file →
    ∃ message, libs.parseFile text = .error message

/-! ### JSON -/

/-- A number can be read from the front of a text, up to a separator that starts with no digit. -/
theorem natText_append_inj {m n : Nat} {separator : Text}
    (hseparator : separator.head?.any (fun c => !c.isDigit) = true) {s t : Text}
    (h : natText m ++ (separator ++ s) = natText n ++ (separator ++ t)) : m = n ∧ s = t := by
  have hdigits : ∀ (k : Nat) (u : Text),
      (natText k ++ (separator ++ u)).takeWhile Char.isDigit = natText k := by
    intro k u
    cases separator with
    | nil => exact nomatch hseparator
    | cons c rest =>
      have hc : ¬ c.isDigit = true := by simpa using hseparator
      rw [List.takeWhile_append_of_pos fun d hd => isDigit_of_mem_natText hd, List.cons_append,
        List.takeWhile_cons_of_neg hc, List.append_nil]
  have hsame : natText m = natText n := by
    rw [← hdigits m s, h, hdigits]
  rw [hsame] at h
  exact ⟨natText_injective hsame, List.append_cancel_left (List.append_cancel_left h)⟩

/-- The source of the key, as JSON. -/
def kdfJson : Kdf → Text
  | .keychain => "\x7b\n    \"type\": \"keychain\"\n  \x7d".toList
  | .argon2id salt mCost tCost pCost =>
    "\x7b\n    \"type\": \"argon2id\",\n    \"salt\": ".toList ++ jsonString salt
      ++ ",\n    \"m_cost\": ".toList ++ natText mCost.toNat
      ++ ",\n    \"t_cost\": ".toList ++ natText tCost.toNat
      ++ ",\n    \"p_cost\": ".toList ++ natText pCost.toNat ++ "\n  \x7d".toList

/-- The envelope, as JSON. -/
def fileJson (file : VaultFile) : Text :=
  "\x7b\n  \"version\": ".toList ++ natText file.version.toNat
    ++ ",\n  \"id\": ".toList ++ jsonString file.id
    ++ ",\n  \"kdf\": ".toList ++ kdfJson file.kdf
    ++ ",\n  \"nonce\": ".toList ++ jsonString file.nonce
    ++ ",\n  \"ciphertext\": ".toList ++ jsonString file.ciphertext ++ "\n\x7d".toList

/-- The source of the key can be read from the front of a text. -/
theorem kdfJson_append_inj {a b : Kdf} {s t : Text} (h : kdfJson a ++ s = kdfJson b ++ t) :
    a = b ∧ s = t := by
  have hkind : ∀ {u v : Text}, "\x7b\n    \"type\": \"keychain\"\n  \x7d".toList ++ u
      ≠ "\x7b\n    \"type\": \"argon2id\",\n    \"salt\": ".toList ++ v := by
    intro u v hsame
    have hfront := congrArg (List.take 16) hsame
    rw [List.take_append_of_le_length (by decide), List.take_append_of_le_length (by decide)]
      at hfront
    exact absurd hfront (by decide)
  cases a with
  | keychain =>
    cases b with
    | keychain => exact ⟨rfl, List.append_cancel_left h⟩
    | argon2id salt mCost tCost pCost =>
      unfold kdfJson at h
      simp only [List.append_assoc] at h
      exact absurd h hkind
  | argon2id salt mCost tCost pCost =>
    cases b with
    | keychain =>
      unfold kdfJson at h
      simp only [List.append_assoc] at h
      exact absurd h.symm hkind
    | argon2id salt' mCost' tCost' pCost' =>
      unfold kdfJson at h
      simp only [List.append_assoc] at h
      obtain ⟨hsalt, h⟩ := jsonString_append_inj (List.append_cancel_left h)
      obtain ⟨hm, h⟩ := natText_append_inj (by decide) (List.append_cancel_left h)
      obtain ⟨ht, h⟩ := natText_append_inj (by decide) h
      obtain ⟨hp, h⟩ := natText_append_inj (by decide) h
      rw [hsalt, UInt32.toNat_inj.mp hm, UInt32.toNat_inj.mp ht, UInt32.toNat_inj.mp hp]
      exact ⟨rfl, h⟩

/-- An envelope can be read from the front of a text. -/
theorem fileJson_append_inj {a b : VaultFile} {s t : Text}
    (h : fileJson a ++ s = fileJson b ++ t) : a = b ∧ s = t := by
  unfold fileJson at h
  simp only [List.append_assoc] at h
  obtain ⟨hversion, h⟩ := natText_append_inj (by decide) (List.append_cancel_left h)
  obtain ⟨hid, h⟩ := jsonString_append_inj h
  obtain ⟨hkdf, h⟩ := kdfJson_append_inj (List.append_cancel_left h)
  obtain ⟨hnonce, h⟩ := jsonString_append_inj (List.append_cancel_left h)
  obtain ⟨hciphertext, h⟩ := jsonString_append_inj (List.append_cancel_left h)
  refine ⟨?_, List.append_cancel_left h⟩
  cases a
  cases b
  rw [VaultFile.mk.injEq]
  exact ⟨UInt32.toNat_inj.mp hversion, hid, hkdf, hnonce, hciphertext⟩

/-- A secret and its name, as JSON. -/
def secretJson (e : Text × Text) : Text := jsonString e.1 ++ (':' :: jsonString e.2)

/-- The secrets behind the first one, as JSON. -/
def moreSecretsJson (entries : List (Text × Text)) : Text :=
  (entries.flatMap fun e => ',' :: secretJson e) ++ ['\x7d']

/-- The secrets, as JSON. -/
def secretsJson (secrets : Secrets) : Text :=
  match secrets.entries with
  | [] => ['\x7b', '\x7d']
  | e :: entries => '\x7b' :: secretJson e ++ moreSecretsJson entries

/-- A secret can be read from the front of a text. -/
theorem secretJson_append_inj {e f : Text × Text} {s t : Text}
    (h : secretJson e ++ s = secretJson f ++ t) : e = f ∧ s = t := by
  unfold secretJson at h
  simp only [List.append_assoc, List.cons_append] at h
  obtain ⟨hname, h⟩ := jsonString_append_inj h
  obtain ⟨hvalue, h⟩ := jsonString_append_inj (List.cons_eq_cons.mp h).2
  exact ⟨Prod.ext hname hvalue, h⟩

/-- Secrets can be read back. -/
theorem moreSecretsJson_injective : Function.Injective moreSecretsJson := by
  unfold moreSecretsJson
  intro l
  induction l with
  | nil =>
    intro m h
    cases m with
    | nil => rfl
    | cons f m => exact absurd (List.cons_eq_cons.mp h).1 (by decide)
  | cons e l ih =>
    intro m h
    cases m with
    | nil => exact absurd (List.cons_eq_cons.mp h).1 (by decide)
    | cons f m =>
      simp only [List.flatMap_cons, List.append_assoc, List.cons_append] at h
      obtain ⟨hfirst, hrest⟩ := secretJson_append_inj (List.cons_eq_cons.mp h).2
      rw [hfirst, ih hrest]

/-- The JSON of the secrets tells them. -/
theorem secretsJson_injective : Function.Injective secretsJson := by
  intro a b h
  have hentries : a.entries = b.entries := by
    unfold secretsJson at h
    cases ha : a.entries with
    | nil =>
      cases hb : b.entries with
      | nil => rfl
      | cons f m =>
        rw [ha, hb] at h
        exact absurd (List.cons_eq_cons.mp (List.cons_eq_cons.mp h).2).1 (by decide)
    | cons e l =>
      cases hb : b.entries with
      | nil =>
        rw [ha, hb] at h
        exact absurd (List.cons_eq_cons.mp (List.cons_eq_cons.mp h).2).1 (by decide)
      | cons f m =>
        rw [ha, hb] at h
        obtain ⟨hfirst, hrest⟩ := secretJson_append_inj (List.cons_eq_cons.mp h).2
        rw [hfirst, moreSecretsJson_injective hrest]
  cases a
  cases b
  rw [SortedMap.mk.injEq]
  exact hentries

/-! ### Libraries that keep the promises -/

/-- A cipher that puts the key and the nonce in front of the message. -/
def sealPlain (key : Key) (nonce : Nonce) (plaintext : List UInt8) : Option (List UInt8) :=
  some (key.1 ++ nonce.1 ++ plaintext)

/-- It refuses a message of another key or nonce. -/
def openPlain (key : Key) (nonce : Nonce) (ciphertext : List UInt8) : Option (List UInt8) :=
  if key.1 ++ nonce.1 <+: ciphertext then some (ciphertext.drop (key.1 ++ nonce.1).length)
  else none

/-- A key from the front of a passphrase. -/
def padKey (pass : Text) : Key :=
  ⟨(Utf8.encode pass ++ List.replicate 32 0).take 32, by
    rw [List.length_take, List.length_append, List.length_replicate]
    omega⟩

/-- One character for each byte. -/
def latinEncode (bytes : List UInt8) : Text := bytes.map fun b => Char.ofNat b.toNat

/-- The bytes behind such characters. -/
def latinDecode (text : Text) : Option (List UInt8) :=
  if ∀ c ∈ text, c.toNat < 256 then some (text.map fun c => UInt8.ofNat c.toNat) else none

/-- A character for a byte is decoded as that byte. -/
theorem latinDecode_encode (bytes : List UInt8) : latinDecode (latinEncode bytes) = some bytes := by
  have hchar : ∀ b : UInt8, (Char.ofNat b.toNat).toNat = b.toNat := by
    intro b
    have hvalid : b.toNat.isValidChar := Or.inl (by have := b.toNat_lt; omega)
    rw [Char.ofNat, dif_pos hvalid]
    exact Char.toNat_ofNatAux hvalid
  have hlow : ∀ c ∈ latinEncode bytes, c.toNat < 256 := by
    intro c hc
    obtain ⟨b, -, rfl⟩ := List.mem_map.mp hc
    rw [hchar]
    exact b.toNat_lt
  unfold latinDecode
  rw [if_pos hlow, latinEncode, List.map_map]
  congr 1
  refine List.map_id'' (fun b => ?_) bytes
  show UInt8.ofNat (Char.ofNat b.toNat).toNat = b
  rw [hchar, UInt8.ofNat_toNat]

section ReadBack

variable {α β : Type}

/-- Read what a printer wrote, and nothing else. -/
noncomputable def readBack (render : α → β) (refused : Text) (written : β) : Except Text α :=
  (Function.partialInv render written).elim (.error refused) .ok

/-- What was written is read. -/
theorem readBack_render {render : α → β} (hrender : Function.Injective render) (refused : Text)
    (a : α) : readBack render refused (render a) = .ok a := by
  rw [readBack, Function.partialInv_left hrender]
  rfl

/-- What was not written is refused. -/
theorem readBack_of_not_written {render : α → β} (refused : Text) {written : β}
    (h : ∀ a, render a ≠ written) : readBack render refused written = .error refused := by
  have hnone : Function.partialInv render written = none := by
    unfold Function.partialInv
    exact dif_neg fun ⟨a, ha⟩ => h a ha
  rw [readBack, hnone]
  rfl

end ReadBack

/-- The documents are JSON, and a parser reads what was written and nothing else. -/
noncomputable def jsonLibs : Libraries where
  encrypt := sealPlain
  decrypt := openPlain
  deriveKey pass _ _ _ _ := .ok (padKey pass)
  b64Encode := latinEncode
  b64Decode := latinDecode
  renderFile := fileJson
  parseFile := readBack fileJson "not an envelope".toList
  renderSecrets secrets := Utf8.encode (secretsJson secrets)
  parseSecrets := readBack (fun secrets => Utf8.encode (secretsJson secrets))
    "not a map of strings".toList

/-- Every decoder of `jsonLibs` reads what its encoder wrote. -/
theorem jsonLibs_correct : jsonLibs.Correct where
  decrypt_encrypt := by
    intro key nonce plaintext ciphertext h
    rw [← Option.some.inj h]
    show openPlain key nonce (key.1 ++ nonce.1 ++ plaintext) = some plaintext
    unfold openPlain
    rw [if_pos (List.prefix_append _ _), List.drop_left]
  b64Decode_encode := by
    intro bytes
    dsimp only [jsonLibs]
    exact latinDecode_encode bytes
  parseFile_render := by
    have hfile : Function.Injective fileJson :=
      fun _ _ h => (fileJson_append_inj (congrArg (· ++ []) h)).1
    exact readBack_render hfile "not an envelope".toList
  parseSecrets_render := by
    have hsecrets : Function.Injective fun secrets => Utf8.encode (secretsJson secrets) :=
      Utf8.encode_injective.comp secretsJson_injective
    exact readBack_render hsecrets "not a map of strings".toList

/-- A part of an envelope is no envelope. -/
theorem jsonLibs_rejectsTorn : jsonLibs.RejectsTorn := by
  intro file text hpart hne
  refine ⟨_, readBack_of_not_written _ fun other hother => hne ?_⟩
  obtain ⟨rest, hrest⟩ := hpart
  have hwhole : fileJson other ++ rest = fileJson file ++ [] := by
    rw [hother, hrest, List.append_nil]
    rfl
  rw [← hother, (fileJson_append_inj hwhole).1]
  rfl

end Gabriel.Vaults

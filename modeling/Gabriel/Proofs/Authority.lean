import Gabriel.Lib.Fallible
import Gabriel.Proofs.CivilDays
import Gabriel.Proxy.Ca

/-!
# `Gabriel.Proofs.Authority`: one authority for a directory

The certificate is written before the key, and each write may stop anywhere. So a directory has no
key, or it has a whole certificate and the beginning of its key (`Holds`). A start is of one of two
kinds: where there is no key it makes a new authority or fails (`created`), and where there is one
it changes nothing (`reused`). A key whose writing stopped is not written again.

In a session, `Serves` ties the cache to the calls of `server_config`, in any interleaving of their
two steps: a call looks into the cache, and a call that found nothing mints and inserts. What the
certificate and TLS libraries promise is `CaTools.Lawful`, and that the date library counts days as
the calendar does is `CaTools.CountsDays`. The theorems:

* `oneAuthority`: whatever number of processes start one after the other on an empty directory, and
  wherever they fail, all that get an authority get the same one.
* `usable_iff`: a start in which nothing fails gets an authority exactly when no torn key is there,
  and a torn key is for good.
* `servedFromCache`: once a host was served, in every later state it is served at once, and nothing
  is minted for it any more.
* `chainOfSession`: what a browser is shown is a certificate for its host, signed by an authority
  that one of the starts founded, and the two are valid together for so many days.
-/

set_option autoImplicit false

namespace Gabriel.Proxy.Ca

open Gabriel.Core Calendar Fallible FileWrite MachineInt Text

variable {Key : Type} {tools : CaTools Key}

/-- What the libraries promise: a signed certificate is what was to be signed, under the name and
with the key of its issuer, and texts are read back. -/
structure CaTools.Lawful (tools : CaTools Key) : Prop where
  params : ∀ params key issuer drawn, (tools.sign params key issuer drawn).params = params
  signedKey : ∀ params key issuer drawn, (tools.sign params key issuer drawn).key = key
  issuerName : ∀ params key issuer drawn,
    (tools.sign params key issuer drawn).issuerName = issuer.params.distinguishedName
  signedWith : ∀ params key issuer drawn,
    (tools.sign params key issuer drawn).signedWith = issuer.key
  cert : ∀ c, tools.parseCert (tools.certPem c) = some c
  key : ∀ k, tools.parseKey (tools.keyPem k) = .ok k
  /-- The beginning of the text of a key does not read as another key. -/
  torn : ∀ k n text k', Utf8.decode? ((Utf8.encode (tools.keyPem k)).take n) = some text →
    tools.parseKey text = .ok k' → k' = k

/-- The certificate of an authority, which signs itself. -/
structure IsRoot (tools : CaTools Key) (root : Certificate Key) (now : UInt64) : Prop where
  params : caParams tools now = .ok root.params
  issuerName : root.issuerName = root.params.distinguishedName
  signedWith : root.signedWith = root.key

/-- The directory holds an authority: its whole certificate, and the beginning of its key, which
its owner alone can read. -/
structure Holds (tools : CaTools Key) (root : Certificate Key) (disk : CaDir) : Prop where
  cert : ∃ file, disk.cert = some file ∧ file.bytes = Utf8.encode (tools.certPem root)
  key : ∃ n, disk.key = some ⟨0o600, (Utf8.encode (tools.keyPem root.key)).take n⟩

/-- What a process has in memory is an authority. -/
structure CertificateAuthority.Of (ca : CertificateAuthority Key) (tools : CaTools Key)
    (root : Certificate Key) : Prop where
  certDer : ca.certDer = root
  certPem : ca.certPem = tools.certPem root
  key : ca.issuer.key = root.key
  /-- What it signs has the name of the certificate as that of the issuer. -/
  issuerName : ca.issuer.params.distinguishedName = root.params.distinguishedName
  cache : ca.cache = SortedMap.empty

/-! ### A start -/

/-- A result of the library that is there. -/
theorem rcgen_eq_ok {α : Type} {result : Except Text α} {a : α} (h : rcgen result = .ok a) :
    result = .ok a := by
  cases result with
  | ok b => exact congrArg Except.ok (Except.ok.inj h)
  | error message => exact nomatch h

/-- What a signature makes. -/
theorem signedBy_eq_ok (hlaw : tools.Lawful) {params : CertificateParams} {key : Key}
    {issuer : Issuer Key} {signature : Except Text Nat} {c : Certificate Key}
    (h : signedBy tools params key issuer signature = .ok c) :
    c.params = params ∧ c.key = key ∧ c.issuerName = issuer.params.distinguishedName ∧
      c.signedWith = issuer.key := by
  unfold signedBy at h
  cases hdrawn : rcgen signature with
  | error stop =>
    rw [hdrawn] at h
    exact nomatch h
  | ok n =>
    rw [hdrawn] at h
    obtain rfl := Except.ok.inj h
    exact ⟨hlaw.params _ _ _ _, hlaw.signedKey _ _ _ _, hlaw.issuerName _ _ _ _,
      hlaw.signedWith _ _ _ _⟩

/-- Every authority has the same name. -/
theorem distinguishedName_caParams {now now' : UInt64} {params params' : CertificateParams}
    (h : caParams tools now = .ok params) (h' : caParams tools now' = .ok params') :
    params.distinguishedName = params'.distinguishedName := by
  obtain ⟨_, -, h⟩ := bind_eq_ok h
  obtain ⟨_, -, h⟩ := bind_eq_ok h
  obtain ⟨_, -, h'⟩ := bind_eq_ok h'
  obtain ⟨_, -, h'⟩ := bind_eq_ok h'
  obtain rfl := Except.ok.inj h
  obtain rfl := Except.ok.inj h'
  rfl

/-- A new authority. -/
theorem newAuthority_eq_ok (hlaw : tools.Lawful) {call : CaCall Key} {ca : CertificateAuthority Key}
    (h : CertificateAuthority.newAuthority tools call = .ok ca) :
    ca.Of tools ca.certDer ∧ IsRoot tools ca.certDer call.drawn.now := by
  obtain ⟨_, -, h⟩ := bind_eq_ok h
  obtain ⟨key, -, h⟩ := bind_eq_ok h
  obtain ⟨params, hparams, h⟩ := bind_eq_ok h
  obtain ⟨cert, hcert, h⟩ := bind_eq_ok h
  obtain rfl := Except.ok.inj h
  obtain ⟨hp, hkey, hname, hsigned⟩ := signedBy_eq_ok hlaw hcert
  refine ⟨⟨rfl, rfl, hkey.symm, ?_, rfl⟩, ⟨?_, ?_, ?_⟩⟩
  · show params.distinguishedName = cert.params.distinguishedName
    rw [hp]
  · show caParams tools _ = .ok cert.params
    rw [hp, hparams]
  · show cert.issuerName = cert.params.distinguishedName
    rw [hname, hp]
  · exact hsigned.trans hkey.symm

/-- A start where there is no key: it leaves the directory without one and fails, or it writes a new
certificate and its key. -/
theorem created (hlaw : tools.Lawful) (call : CaCall Key) {disk : CaDir}
    (hkey : disk.key = none) :
    ((CertificateAuthority.loadOrCreate tools call disk).2.key = none ∧
        ∀ ca, (CertificateAuthority.loadOrCreate tools call disk).1 ≠ .ok ca) ∨
      ∃ root, IsRoot tools root call.drawn.now ∧
        Holds tools root (CertificateAuthority.loadOrCreate tools call disk).2 ∧
        (call.keyFault = none → (CertificateAuthority.loadOrCreate tools call disk).2.key
          = some ⟨0o600, Utf8.encode (tools.keyPem root.key)⟩) ∧
        ∀ ca, (CertificateAuthority.loadOrCreate tools call disk).1 = .ok ca →
          ca.Of tools root := by
  have hnew : CertificateAuthority.loadOrCreate tools call disk
      = CertificateAuthority.create tools call disk :=
    if_neg (by simp [hkey])
  rw [hnew]
  unfold CertificateAuthority.create
  cases hca : CertificateAuthority.newAuthority tools call with
  | error stop => exact Or.inl ⟨hkey, fun ca h => nomatch h⟩
  | ok ca =>
    obtain ⟨hof, hroot⟩ := newAuthority_eq_ok hlaw hca
    dsimp only
    cases hcert : call.certFault with
    | some fault => exact Or.inl ⟨hkey, fun ca h => nomatch h⟩
    | none =>
      -- The certificate is whole.
      have hwhole : ∃ file, writeFile disk.cert (Utf8.encode ca.certPem) 0o644 none = some file ∧
          file.bytes = Utf8.encode (tools.certPem ca.certDer) :=
        ⟨_, rfl, congrArg Utf8.encode hof.certPem⟩
      have hfile : ∀ bytes, writeFile disk.key (Utf8.encode (tools.keyPem ca.issuer.key)) 0o600
          bytes = (write none (Utf8.encode (tools.keyPem ca.certDer.key)) bytes).map
            (CaFile.mk 0o600) := by
        intro bytes
        rw [hkey, hof.key]
        rfl
      have hfails : ∀ fault ca', (writeResult .key (some fault)).map (fun _ => ca) ≠ .ok ca' :=
        fun fault ca' h => nomatch h
      dsimp only [writeResult] at hfails ⊢
      rw [hfile]
      cases hfault : call.keyFault with
      | none =>
        refine Or.inr ⟨ca.certDer, hroot, ⟨hwhole, ?_⟩, fun _ => rfl, ?_⟩
        · exact ⟨(Utf8.encode (tools.keyPem ca.certDer.key)).length, by rw [List.take_length]; rfl⟩
        · intro ca' h
          obtain rfl := Except.ok.inj h
          exact hof
      | some fault =>
        cases fault with
        | opening => exact Or.inl ⟨rfl, hfails .opening⟩
        | writing n =>
          -- The start fails, but the key file is there.
          exact Or.inr ⟨ca.certDer, hroot, ⟨hwhole, n, rfl⟩, fun h => absurd h (by simp),
            fun ca' h => absurd h (hfails (.writing n) ca')⟩
        | syncing =>
          refine Or.inr ⟨ca.certDer, hroot, ⟨hwhole, ?_⟩, fun h => absurd h (by simp),
            fun ca' h => absurd h (hfails .syncing ca')⟩
          exact ⟨(Utf8.encode (tools.keyPem ca.certDer.key)).length, by rw [List.take_length]; rfl⟩

/-- A file that can be read. -/
theorem readFile_eq_ok {path : CaPath} {file : CaFile} {fault : Option Text} {text : Text}
    (h : readFile path (some file) fault = .ok text) : Utf8.encode text = file.bytes := by
  unfold readFile at h
  cases fault with
  | some message => exact nomatch h
  | none =>
    dsimp only at h
    cases htext : Utf8.decode? file.bytes with
    | none =>
      rw [htext] at h
      exact nomatch h
    | some t =>
      rw [htext] at h
      obtain rfl := Except.ok.inj h
      exact (Utf8.decode?_eq_some_iff file.bytes t).mp htext

/-- A start where there is an authority changes nothing, and returns that authority if any. -/
theorem reused (hlaw : tools.Lawful) (call : CaCall Key) {disk : CaDir} {root : Certificate Key}
    {now : UInt64} (hroot : IsRoot tools root now) (hholds : Holds tools root disk) :
    (CertificateAuthority.loadOrCreate tools call disk).2 = disk ∧
      ∀ ca, (CertificateAuthority.loadOrCreate tools call disk).1 = .ok ca → ca.Of tools root := by
  obtain ⟨⟨certFile, hcert, hbytes⟩, n, hkey⟩ := hholds
  have hload : CertificateAuthority.loadOrCreate tools call disk
      = (CertificateAuthority.load tools call disk, disk) :=
    if_pos (by rw [hcert, hkey]; exact ⟨rfl, rfl⟩)
  rw [hload]
  refine ⟨rfl, fun ca h => ?_⟩
  -- Both files were read, and both read as what they should be.
  obtain ⟨certPem, hcertPem, h⟩ := bind_eq_ok h
  obtain ⟨keyPem, hkeyPem, h⟩ := bind_eq_ok h
  obtain ⟨key, hparsed, h⟩ := bind_eq_ok h
  obtain ⟨certDer, hder, h⟩ := bind_eq_ok h
  obtain ⟨params, hparams, h⟩ := bind_eq_ok h
  obtain rfl := Except.ok.inj h
  rw [hcert] at hcertPem
  rw [hkey] at hkeyPem
  have htext : certPem = tools.certPem root :=
    Utf8.encode_injective ((readFile_eq_ok hcertPem).trans hbytes)
  have hsame : key = root.key :=
    hlaw.torn root.key n keyPem key
      ((Utf8.decode?_eq_some_iff _ _).mpr (readFile_eq_ok hkeyPem)) (rcgen_eq_ok hparsed)
  rw [htext, firstCertificate, hlaw.cert root] at hder
  obtain rfl := Except.ok.inj hder
  exact ⟨rfl, htext, hsame, distinguishedName_caParams hparams hroot.params, rfl⟩

/-! ### A library of two keys -/

instance encodableChar : Encodable Char :=
  Encodable.ofLeftInverse Char.toNat Char.ofNat Char.ofNat_toNat

deriving instance Encodable for San, KeyUsage, DistinguishedName, CertificateParams, Certificate

/-- A certificate is written as its number. -/
def plainTools : CaTools Bool where
  sign params key issuer drawn :=
    ⟨params, key, issuer.params.distinguishedName, issuer.key, drawn⟩
  certPem c := natText (Encodable.encode c)
  parseCert text := (parseDigits text).bind Encodable.decode
  keyPem key := if key then "KEY 1.".toList else "KEY 0.".toList
  parseKey text :=
    if text = "KEY 1.".toList then .ok true
    else if text = "KEY 0.".toList then .ok false
    else .error "no key".toList
  subjectAltName host :=
    if host.all fun c => c.toNat < 128 then .ok (.dns host) else .error "no name".toList
  dateTimeYmd y m d :=
    if IsDate y.toInt m.toNat d.toNat ∧ y ≤ 9999 then some (civilDay y.toInt m.toNat d.toNat)
    else none
  keyDerError _ := none
  singleCertError chain key :=
    if chain.head?.map (·.key) = some key then none else some "keys do not match".toList

/-- The libraries of the sample obey the laws. -/
theorem plainTools_lawful : plainTools.Lawful := by
  refine ⟨fun _ _ _ _ => rfl, fun _ _ _ _ => rfl, fun _ _ _ _ => rfl, fun _ _ _ _ => rfl,
    fun c => ?_, fun k => by cases k <;> decide, fun k n text k' htext hparsed => ?_⟩
  · show (parseDigits (natText (Encodable.encode c))).bind Encodable.decode = some c
    rw [parseDigits_natText, Option.bind_some, Encodable.encodek]
  · -- The text of a key is not the beginning of another one.
    have hkey : text = plainTools.keyPem k' := by
      revert hparsed
      show (if _ then _ else _) = _ → _
      split_ifs with hone hzero
      · intro h
        obtain rfl := Except.ok.inj h
        exact hone
      · intro h
        obtain rfl := Except.ok.inj h
        exact hzero
      · exact fun h => nomatch h
    have hbegin : Utf8.encode (plainTools.keyPem k') <+: Utf8.encode (plainTools.keyPem k) := by
      rw [← hkey, (Utf8.decode?_eq_some_iff _ _).mp htext]
      exact List.take_prefix n _
    revert hbegin
    cases k <;> cases k' <;> decide

/-- And they count days as the calendar does. -/
theorem plainTools_countsDays : ∀ y m d day,
    plainTools.dateTimeYmd y m d = some day → day = civilDay y.toInt m.toNat d.toNat := by
  intro y m d day h
  obtain ⟨-, hday⟩ := Option.ite_none_right_eq_some.mp h
  exact (Option.some.inj hday).symm

/-- What is drawn on 29 July 2026. -/
def plainDrawn (key : Bool) : Drawn Bool := ⟨1785312000000, .ok key, .ok 7⟩

/-- A start on this day. -/
def plainStart (key : Bool) (keyFault : Option Fault) : CaCall Bool :=
  { drawn := plainDrawn key, keyFault }

/-! ### Any number of starts -/

open CertificateAuthority (starts loadOrCreate)

/-- Starts where there is an authority. -/
theorem starts_reused (hlaw : tools.Lawful) {root : Certificate Key} {now : UInt64}
    (hroot : IsRoot tools root now) (calls : List (CaCall Key)) {disk : CaDir}
    (hholds : Holds tools root disk) :
    (starts tools calls disk).2 = disk ∧
      ∀ ca, .ok ca ∈ (starts tools calls disk).1 → ca.Of tools root := by
  induction calls with
  | nil => exact ⟨rfl, fun ca hca => absurd hca List.not_mem_nil⟩
  | cons call calls ih =>
    obtain ⟨hdisk, hfirst⟩ := reused hlaw call hroot hholds
    unfold starts
    dsimp only
    rw [hdisk]
    refine ⟨ih.1, fun ca hca => ?_⟩
    rcases List.mem_cons.mp hca with heq | hca
    · exact hfirst ca heq.symm
    · exact ih.2 ca hca

/-- Starts where there is no key. -/
theorem starts_created (hlaw : tools.Lawful) (calls : List (CaCall Key)) {disk : CaDir}
    (hkey : disk.key = none) :
    ((starts tools calls disk).2.key = none ∧ ∀ ca, .ok ca ∉ (starts tools calls disk).1) ∨
      ∃ root, (∃ call ∈ calls, IsRoot tools root call.drawn.now) ∧
        Holds tools root (starts tools calls disk).2 ∧
        ((∀ call ∈ calls, call.keyFault = none) → (starts tools calls disk).2.key
          = some ⟨0o600, Utf8.encode (tools.keyPem root.key)⟩) ∧
        ∀ ca, .ok ca ∈ (starts tools calls disk).1 → ca.Of tools root := by
  -- Induction on the starts; the first one that succeeds settles the directory.
  induction calls generalizing disk with
  | nil => exact Or.inl ⟨hkey, fun ca => List.not_mem_nil⟩
  | cons call calls ih =>
    unfold starts
    dsimp only
    rcases created hlaw call hkey with
      ⟨hnone, hfails⟩ | ⟨root, hroot, hholds, hwhole, hfirst⟩
    · -- The first start fails, and the next one is as before it.
      rcases ih hnone with ⟨hend, hall⟩ | ⟨root, ⟨call', hmem, hroot⟩, hholds, hwhole, hall⟩
      · refine Or.inl ⟨hend, fun ca hca => ?_⟩
        rcases List.mem_cons.mp hca with heq | hca
        · exact hfails ca heq.symm
        · exact hall ca hca
      · refine Or.inr ⟨root, ⟨call', List.mem_cons_of_mem call hmem, hroot⟩, hholds,
          fun h => hwhole fun c hc => h c (List.mem_cons_of_mem call hc), fun ca hca => ?_⟩
        rcases List.mem_cons.mp hca with heq | hca
        · exact absurd heq.symm (hfails ca)
        · exact hall ca hca
    · -- The first start settles the directory.
      obtain ⟨hdisk, hall⟩ := starts_reused hlaw hroot calls hholds
      refine Or.inr ⟨root, ⟨call, List.mem_cons_self, hroot⟩, ?_, ?_, fun ca hca => ?_⟩
      · rw [hdisk]
        exact hholds
      · intro h
        rw [hdisk]
        exact hwhole (h call List.mem_cons_self)
      · rcases List.mem_cons.mp hca with heq | hca
        · exact hfirst ca heq.symm
        · exact hall ca hca

/-- **One authority for a directory.** Whatever number of processes start one after the other on an
empty directory, and wherever their writes and reads fail: no process gets an authority and the
directory has no key; or the directory holds one authority, made by one of the starts, its key is
for the owner alone, and every authority that a process got is this one. -/
theorem oneAuthority (hlaw : tools.Lawful) (calls : List (CaCall Key)) :
    ((starts tools calls CaDir.empty).2.key = none ∧
        ∀ ca, .ok ca ∉ (starts tools calls CaDir.empty).1) ∨
      ∃ root, (∃ call ∈ calls, IsRoot tools root call.drawn.now) ∧
        Holds tools root (starts tools calls CaDir.empty).2 ∧
        ∀ ca, .ok ca ∈ (starts tools calls CaDir.empty).1 → ca.Of tools root := by
  have hnone : CaDir.empty.key = none := rfl
  rcases starts_created hlaw calls hnone with h | ⟨root, hroot, hholds, -, hall⟩
  · exact Or.inl h
  · exact Or.inr ⟨root, hroot, hholds, hall⟩

/-- The second process draws another key, and gets the first one. -/
theorem oneAuthority_twice : ∃ root,
    Holds plainTools root
        (starts plainTools [plainStart true none, plainStart false none] CaDir.empty).2 ∧
      ∀ ca,
        .ok ca ∈ (starts plainTools [plainStart true none, plainStart false none] CaDir.empty).1 →
          ca.Of plainTools root := by
  rcases oneAuthority plainTools_lawful [plainStart true none, plainStart false none] with
    ⟨hnone, -⟩ | ⟨root, -, h⟩
  · exact absurd hnone (by decide +kernel)
  · exact ⟨root, h⟩

/-! ### A key whose writing stopped -/

/-- There is a key file, and its text is not a key. -/
def Unreadable (tools : CaTools Key) (disk : CaDir) : Prop :=
  ∃ file, disk.key = some file ∧
    ∀ text, Utf8.decode? file.bytes = some text → ∀ key, tools.parseKey text ≠ .ok key

/-- No write or read of a start fails. -/
structure CaCall.Quiet (call : CaCall Key) : Prop where
  certFault : call.certFault = none
  keyFault : call.keyFault = none
  certRead : call.certRead = none
  keyRead : call.keyRead = none

/-- Where there is no key, a start without a fault that draws an authority returns it. -/
theorem loadOrCreate_quiet {call : CaCall Key} (hquiet : call.Quiet)
    {new : CertificateAuthority Key}
    (hnew : CertificateAuthority.newAuthority tools call = .ok new) {disk : CaDir}
    (hkey : disk.key = none) : (loadOrCreate tools call disk).1 = .ok new := by
  unfold loadOrCreate CertificateAuthority.create
  rw [if_neg (by simp [hkey]), hnew, hquiet.certFault, hquiet.keyFault]
  rfl

/-- An authority cannot be read from a key file that is not a key. -/
theorem load_unreadable {disk : CaDir} (h : Unreadable tools disk) (call : CaCall Key)
    (ca : CertificateAuthority Key) : CertificateAuthority.load tools call disk ≠ .ok ca := by
  intro hload
  obtain ⟨file, hfile, hnot⟩ := h
  obtain ⟨certPem, -, hload⟩ := bind_eq_ok hload
  obtain ⟨keyPem, hkeyPem, hload⟩ := bind_eq_ok hload
  obtain ⟨key, hparsed, -⟩ := bind_eq_ok hload
  rw [hfile] at hkeyPem
  exact hnot keyPem ((Utf8.decode?_eq_some_iff _ _).mpr (readFile_eq_ok hkeyPem)) key
    (rcgen_eq_ok hparsed)

/-- A key file that is a key is read with its certificate. -/
theorem load_readable (hlaw : tools.Lawful) {call : CaCall Key} (hquiet : call.Quiet)
    {params : CertificateParams} (hparams : caParams tools call.drawn.now = .ok params)
    {root : Certificate Key} {disk : CaDir} (hholds : Holds tools root disk)
    (h : ¬ Unreadable tools disk) : ∃ ca, CertificateAuthority.load tools call disk = .ok ca := by
  obtain ⟨⟨certFile, hcert, hbytes⟩, n, hkey⟩ := hholds
  -- The beginning of the key that is there reads as some key.
  have hread : ∃ text, Utf8.decode? ((Utf8.encode (tools.keyPem root.key)).take n) = some text ∧
      ∃ key, tools.parseKey text = .ok key := by
    by_contra hno
    refine h ⟨_, hkey, fun text htext key hparsed => hno ⟨text, htext, key, hparsed⟩⟩
  obtain ⟨text, htext, key, hparsed⟩ := hread
  have hpem : Utf8.decode? certFile.bytes = some (tools.certPem root) :=
    (Utf8.decode?_eq_some_iff _ _).mpr hbytes.symm
  refine ⟨⟨root, tools.certPem root, ⟨params, key⟩, SortedMap.empty⟩, ?_⟩
  unfold CertificateAuthority.load
  rw [hcert, hkey, hquiet.certRead, hquiet.keyRead]
  unfold readFile
  dsimp only
  rw [hpem, htext]
  dsimp only [bind, Except.bind]
  rw [hparsed, firstCertificate, hlaw.cert root]
  dsimp only [rcgen]
  rw [hparams]
  rfl

/-- **A torn key is for good.** After any starts on an empty directory, one in which nothing fails
returns an authority, unless there is a key file that does not read as a key. Then no start ever
changes the directory or returns an authority again; and this takes a start whose writing of the key
failed. -/
theorem usable_iff (hlaw : tools.Lawful) (calls : List (CaCall Key)) {call : CaCall Key}
    (hquiet : call.Quiet)
    (hnew : ∃ new, CertificateAuthority.newAuthority tools call = .ok new) :
    ((∃ ca, (loadOrCreate tools call (starts tools calls CaDir.empty).2).1 = .ok ca) ↔
        ¬ Unreadable tools (starts tools calls CaDir.empty).2) ∧
      (Unreadable tools (starts tools calls CaDir.empty).2 →
        (∀ later, (starts tools later (starts tools calls CaDir.empty).2).2
            = (starts tools calls CaDir.empty).2 ∧
          ∀ ca, .ok ca ∉ (starts tools later (starts tools calls CaDir.empty).2).1) ∧
        ∃ torn ∈ calls, torn.keyFault ≠ none) := by
  obtain ⟨new, hnew⟩ := hnew
  have hnone : CaDir.empty.key = none := rfl
  have hsettled := starts_created hlaw calls hnone
  generalize (starts tools calls CaDir.empty).2 = disk at hsettled ⊢
  rcases hsettled with ⟨hkey, -⟩ | ⟨root, ⟨first, -, hroot⟩, hholds, hwhole, -⟩
  · have hreadable : ¬ Unreadable tools disk := by
      rintro ⟨file, hfile, -⟩
      rw [hkey] at hfile
      exact nomatch hfile
    exact ⟨⟨fun _ => hreadable, fun _ => ⟨new, loadOrCreate_quiet hquiet hnew hkey⟩⟩,
      fun h => absurd h hreadable⟩
  · have hload : ∀ c : CaCall Key, loadOrCreate tools c disk
        = (CertificateAuthority.load tools c disk, disk) := by
      intro c
      obtain ⟨⟨certFile, hcert, -⟩, n, hkey⟩ := hholds
      exact if_pos (by rw [hcert, hkey]; exact ⟨rfl, rfl⟩)
    obtain ⟨params, hparams⟩ : ∃ params, caParams tools call.drawn.now = .ok params :=
      ⟨_, (newAuthority_eq_ok hlaw hnew).2.params⟩
    refine ⟨?_, fun h => ⟨fun later => ?_, ?_⟩⟩
    · rw [hload call]
      exact ⟨fun ⟨ca, hca⟩ h => load_unreadable h call ca hca,
        load_readable hlaw hquiet hparams hholds⟩
    · obtain ⟨hsame, -⟩ := starts_reused hlaw hroot later hholds
      refine ⟨hsame, ?_⟩
      clear hsame
      induction later with
      | nil => exact fun ca => List.not_mem_nil
      | cons c later ih =>
        intro ca hca
        unfold starts at hca
        rw [hload c] at hca
        rcases List.mem_cons.mp hca with heq | hca
        · exact load_unreadable h c ca heq.symm
        · exact ih ca hca
    · by_contra hno
      have hall : ∀ c ∈ calls, c.keyFault = none := by
        intro c hc
        by_contra hfault
        exact hno ⟨c, hc, hfault⟩
      -- The key file is whole, and reads as the key.
      obtain ⟨file, hfile, hnot⟩ := h
      rw [hwhole hall] at hfile
      obtain rfl := Option.some.inj hfile
      exact hnot _ ((Utf8.decode?_eq_some_iff _ _).mpr rfl) root.key (hlaw.key root.key)

/-- Half a key is written, and no start gets an authority any more. -/
theorem usable_iff_torn :
    (starts plainTools [plainStart true (some (.writing 3))] CaDir.empty).2.key
      = some ⟨0o600, Utf8.encode "KEY".toList⟩ ∧
    ∀ later,
      (starts plainTools later (starts plainTools [plainStart true (some (.writing 3))]
          CaDir.empty).2).2
        = (starts plainTools [plainStart true (some (.writing 3))] CaDir.empty).2 ∧
        ∀ ca, .ok ca ∉ (starts plainTools later
          (starts plainTools [plainStart true (some (.writing 3))] CaDir.empty).2).1 := by
  have hnew : ∃ new,
      CertificateAuthority.newAuthority plainTools (plainStart true none) = .ok new := ⟨_, rfl⟩
  have hquiet : (plainStart true none).Quiet := ⟨rfl, rfl, rfl, rfl⟩
  have hkey : (starts plainTools [plainStart true (some (.writing 3))] CaDir.empty).2.key
      = some ⟨0o600, Utf8.encode "KEY".toList⟩ := by decide +kernel
  refine ⟨hkey,
    ((usable_iff plainTools_lawful [plainStart true (some (.writing 3))] hquiet hnew).2 ?_).1⟩
  refine ⟨_, hkey, fun text htext key hparsed => ?_⟩
  obtain rfl : text = "KEY".toList :=
    Utf8.encode_injective ((Utf8.decode?_eq_some_iff _ _).mp htext)
  exact nomatch hparsed

/-! ### Validity -/

/-- The library panics, or returns the day of the date. -/
def CaTools.CountsDays (tools : CaTools Key) : Prop :=
  ∀ y m d day, tools.dateTimeYmd y m d = some day → day = civilDay y.toInt m.toNat d.toNat

/-- The day of an instant, from the epoch. -/
def dayOf (ms : UInt64) : ℤ := ms.toNat / 86400000

/-- The instants between the two midnights of a certificate. -/
def Certificate.ValidAt (c : Certificate Key) (ms : ℤ) : Prop :=
  c.params.notBefore * 86400000 ≤ ms ∧ ms ≤ c.params.notAfter * 86400000

/-- The date some days away is in the calendar, and the conversions lose nothing. -/
theorem dateParts_spec (now : UInt64) {offset : Int64} (hlow : -1 ≤ offset.toInt)
    (hhigh : offset.toInt ≤ 2000) :
    ∃ (y : Int64) (m d : UInt32), dateParts now offset = (y, m, d) ∧
      civilDay y.toInt32.toInt m.toUInt8.toNat d.toUInt8.toNat = dayOf now + offset.toInt := by
  have hnow := now.toNat_lt
  have hsecs : (now / 1000).toNat = now.toNat / 1000 := UInt64.toNat_div now 1000
  have hdays : ((now / 1000).toInt64 / 86400).toInt = dayOf now := by
    rw [toInt_div (toInt_toInt64 (by omega)) (b := 86400) rfl (by omega) (by decide), hsecs]
    unfold dayOf
    omega
  have hday : ((now / 1000).toInt64 / 86400 + offset).toInt = dayOf now + offset.toInt := by
    unfold dayOf at hdays ⊢
    exact toInt_add_of_fits hdays rfl ⟨by omega, by omega⟩
  have hfits : FitsCivil ((now / 1000).toInt64 / 86400 + offset).toInt := by
    rw [hday]
    unfold dayOf FitsCivil epochDay
    exact ⟨by omega, by omega⟩
  obtain ⟨y, m, d, hdate, hcivil⟩ := exists_date hfits
  refine ⟨y, m, d, civilFromDays_of_checked (civilFromDaysChecked_civilDay hdate hcivil hfits), ?_⟩
  obtain ⟨⟨-, -, hd⟩, ⟨hy0, hy1⟩, hmonth⟩ :=
    marchDate_fields (y := y.toInt) (d.toNat : ℤ) hdate.month
  obtain ⟨hm1, hm12⟩ := hdate.month
  obtain ⟨hd1, hd31⟩ := hdate.day_le
  -- A year that is not longer than its days fits in `i32`.
  have hyear : y.toInt.bmod (2 ^ 32) = y.toInt := by
    have hlong := hcivil
    rw [hday] at hlong
    unfold civilDay dayOfDate monthStart yearStart epochDay dayOf at hlong
    exact Int.bmod_eq_of_le (by omega) (by omega)
  have hm : m.toUInt8.toNat = m.toNat := by
    rw [UInt32.toNat_toUInt8, Nat.mod_eq_of_lt (by omega)]
  have hd' : d.toUInt8.toNat = d.toNat := by
    rw [UInt32.toNat_toUInt8, Nat.mod_eq_of_lt (by omega)]
  rw [Int64.toInt_toInt32, hyear, hm, hd', ← hcivil, hday]

/-- The midnight of a certificate is that of the day it is counted to. -/
theorem midnight_eq_ok (hdays : tools.CountsDays) {now : UInt64} {offset : Int64} {day : ℤ}
    (hlow : -1 ≤ offset.toInt) (hhigh : offset.toInt ≤ 2000)
    (h : midnight tools now offset = .ok day) : day = dayOf now + offset.toInt := by
  obtain ⟨y, m, d, hparts, hcivil⟩ := dateParts_spec now hlow hhigh
  unfold midnight at h
  rw [hparts] at h
  dsimp only at h
  cases hymd : tools.dateTimeYmd y.toInt32 m.toUInt8 d.toUInt8 with
  | none =>
    rw [hymd] at h
    exact nomatch h
  | some day' =>
    rw [hymd] at h
    obtain rfl := Except.ok.inj h
    rw [hdays _ _ _ _ hymd, hcivil]

/-- The authority is valid for five years of 365 days. -/
theorem validAt_root (hdays : tools.CountsDays) {root : Certificate Key} {now : UInt64}
    (hroot : IsRoot tools root now) (ms : ℤ) :
    root.ValidAt ms ↔ (dayOf now - 1) * 86400000 ≤ ms ∧ ms ≤ (dayOf now + 1825) * 86400000 := by
  obtain ⟨notBefore, hbefore, h⟩ := bind_eq_ok hroot.params
  obtain ⟨notAfter, hafter, h⟩ := bind_eq_ok h
  have hparams := Except.ok.inj h
  unfold Certificate.ValidAt
  rw [← hparams, midnight_eq_ok hdays (by decide) (by decide) hbefore,
    midnight_eq_ok hdays (by decide) (by decide) hafter]
  rfl

/-! ### One host -/

/-- A certificate for a host. -/
structure IsLeaf (tools : CaTools Key) (issuer : Issuer Key) (host : Text)
    (leaf : Certificate Key) : Prop where
  signedWith : leaf.signedWith = issuer.key
  issuerName : leaf.issuerName = issuer.params.distinguishedName
  commonName : leaf.params.distinguishedName.commonName = host
  names : ∃ san, tools.subjectAltName host = .ok san ∧ leaf.params.subjectAltNames = [san]
  serverAuth : leaf.params.serverAuth = true
  isCa : leaf.params.isCa = none

/-- What is minted for a host. -/
theorem mintConfig_eq_ok (hlaw : tools.Lawful) {ca : CertificateAuthority Key} {host : Text}
    {drawn : Drawn Key} {config : ServerConfig Key}
    (h : ca.mintConfig tools host drawn = .ok config) :
    ∃ leaf, IsLeaf tools ca.issuer host leaf ∧ config.chain = [leaf, ca.certDer] ∧
      config.key = leaf.key ∧ midnight tools drawn.now (-1) = .ok leaf.params.notBefore ∧
      midnight tools drawn.now leafValidityDays = .ok leaf.params.notAfter := by
  obtain ⟨⟨leaf, key⟩, hleaf, h⟩ := bind_eq_ok h
  obtain ⟨_, -, h⟩ := bind_eq_ok h
  obtain rfl := Except.ok.inj h
  obtain ⟨_, -, hleaf⟩ := bind_eq_ok hleaf
  obtain ⟨san, hsan, hleaf⟩ := bind_eq_ok hleaf
  obtain ⟨notBefore, hbefore, hleaf⟩ := bind_eq_ok hleaf
  obtain ⟨notAfter, hafter, hleaf⟩ := bind_eq_ok hleaf
  obtain ⟨cert, hcert, hleaf⟩ := bind_eq_ok hleaf
  obtain ⟨_, -, hleaf⟩ := bind_eq_ok hleaf
  obtain ⟨rfl, rfl⟩ := Prod.mk.inj (Except.ok.inj hleaf)
  obtain ⟨hparams, hkey, hname, hsigned⟩ := signedBy_eq_ok hlaw hcert
  refine ⟨cert, ⟨hsigned, hname, ?_, ⟨san, rcgen_eq_ok hsan, ?_⟩, ?_, ?_⟩, rfl, hkey.symm, ?_, ?_⟩
    <;> rw [hparams]
  · exact hbefore
  · exact hafter

/-- It is valid for three hundred days. -/
theorem validAt_leaf (hdays : tools.CountsDays) {leaf : Certificate Key} {now : UInt64}
    (hbefore : midnight tools now (-1) = .ok leaf.params.notBefore)
    (hafter : midnight tools now leafValidityDays = .ok leaf.params.notAfter) (ms : ℤ) :
    leaf.ValidAt ms ↔ (dayOf now - 1) * 86400000 ≤ ms ∧ ms ≤ (dayOf now + 300) * 86400000 := by
  unfold Certificate.ValidAt
  rw [midnight_eq_ok hdays (by decide) (by decide) hbefore,
    midnight_eq_ok hdays (by decide) (by decide) hafter]
  rfl

/-- What is minted depends on the issuer and its certificate alone. -/
theorem mintConfig_congr {ca ca' : CertificateAuthority Key} (hissuer : ca.issuer = ca'.issuer)
    (hder : ca.certDer = ca'.certDer) (host : Text) (drawn : Drawn Key) :
    ca.mintConfig tools host drawn = ca'.mintConfig tools host drawn := by
  unfold CertificateAuthority.mintConfig CertificateAuthority.mintLeaf
  rw [hissuer, hder]

/-! ### A session -/

/-- An entry of a list that is not the one that is replaced. -/
theorem mem_set_of_ne {α : Type} {l : List α} {i : Nat} {a b x : α} (hi : l[i]? = some b)
    (hx : x ∈ l) (hne : x ≠ b) : x ∈ l.set i a := by
  obtain ⟨j, hj⟩ := List.mem_iff_getElem?.mp hx
  have hij : i ≠ j := by
    rintro rfl
    rw [hi] at hj
    exact hne (Option.some.inj hj).symm
  exact List.mem_iff_getElem?.mpr ⟨j, by rw [List.getElem?_set_ne hij, hj]⟩

/-- What holds of a session of an authority: it has the same certificate and issuer, its calls
were answered with what was minted, from draws that have some property, and its cache is what some
calls were answered with, for every host that was served. -/
structure Serves (tools : CaTools Key) (ca : CertificateAuthority Key) (D : Drawn Key → Prop)
    (s : Handshakes Key) : Prop where
  issuer : s.ca.issuer = ca.issuer
  certDer : s.ca.certDer = ca.certDer
  minted : ∀ host config, .answered host (.ok config) ∈ s.calls →
    ∃ drawn, D drawn ∧ ca.mintConfig tools host drawn = .ok config
  cached : ∀ host config, s.ca.cache.get? host = some config →
    .answered host (.ok config) ∈ s.calls
  served : ∀ host config, .answered host (.ok config) ∈ s.calls →
    (s.ca.cache.get? host).isSome

section Session

variable {ca : CertificateAuthority Key} {D : Drawn Key → Prop} {s : Handshakes Key}

/-- A call begins. -/
theorem serves_ask (h : Serves tools ca D s) (host : Text) : Serves tools ca D (s.ask host) := by
  have hnew : ∀ host' config, .answered host' (.ok config) ∈ (s.ask host).calls →
      .answered host' (.ok config) ∈ s.calls := by
    intro host' config hmem
    rcases List.mem_append.mp hmem with hmem | hmem
    · exact hmem
    · have heq := List.mem_singleton.mp hmem
      cases hcache : s.ca.cache.get? host with
      | none =>
        rw [hcache] at heq
        exact nomatch heq
      | some cached =>
        -- The answer of the new call is in the cache, so some call has it.
        rw [hcache] at heq
        rw [heq]
        exact h.cached host cached hcache
  refine ⟨h.issuer, h.certDer, fun host' config hmem => h.minted host' config (hnew _ _ hmem), ?_,
    fun host' config hmem => h.served host' config (hnew _ _ hmem)⟩
  intro host' config hcache
  exact List.mem_append.mpr (Or.inl (h.cached host' config hcache))

/-- A call mints and inserts. -/
theorem serves_mint (h : Serves tools ca D s) (index : Nat) {drawn : Drawn Key} (hD : D drawn) :
    Serves tools ca D (s.mint tools index drawn) := by
  unfold Handshakes.mint
  split
  · rename_i host hindex
    have hkept : ∀ answer host' config, .answered host' (.ok config) ∈ s.calls →
        .answered host' (.ok config) ∈ s.calls.set index answer :=
      fun answer host' config hmem => mem_set_of_ne hindex hmem (fun heq => nomatch heq)
    cases hmint : s.ca.mintConfig tools host drawn with
    | error stop =>
      have hold : ∀ host' config,
          .answered host' (.ok config) ∈ s.calls.set index (.answered host (.error stop)) →
            .answered host' (.ok config) ∈ s.calls := by
        intro host' config hmem
        rcases List.mem_or_eq_of_mem_set hmem with hmem | heq
        · exact hmem
        · obtain ⟨-, hbad⟩ := Handshake.answered.inj heq
          exact nomatch hbad
      exact ⟨h.issuer, h.certDer, fun host' config hmem => h.minted host' config (hold _ _ hmem),
        fun host' config hcache => hkept _ _ _ (h.cached host' config hcache),
        fun host' config hmem => h.served host' config (hold _ _ hmem)⟩
    | ok config =>
      -- Another call for the host may have minted before: its entry is replaced.
      have hlength : index < s.calls.length := (List.getElem?_eq_some_iff.mp hindex).1
      rw [mintConfig_congr h.issuer h.certDer] at hmint
      refine ⟨h.issuer, h.certDer, ?_, ?_, ?_⟩
      · intro host' config' hmem
        rcases List.mem_or_eq_of_mem_set hmem with hmem | heq
        · exact h.minted host' config' hmem
        · obtain ⟨rfl, hconfig⟩ := Handshake.answered.inj heq
          obtain rfl := Except.ok.inj hconfig
          exact ⟨drawn, hD, hmint⟩
      · intro host' config' hcache
        by_cases hhost : host' = host
        · subst hhost
          have hsome := (SortedMap.get?_insert_self s.ca.cache host' config).symm.trans hcache
          obtain rfl := Option.some.inj hsome
          exact List.mem_set hlength _
        · have hother := (SortedMap.get?_insert_of_ne s.ca.cache config hhost).symm.trans hcache
          exact hkept _ _ _ (h.cached host' config' hother)
      · intro host' config' hmem
        show ((s.ca.cache.insert host config).get? host').isSome
        by_cases hhost : host' = host
        · rw [hhost, SortedMap.get?_insert_self]
          rfl
        · rw [SortedMap.get?_insert_of_ne s.ca.cache config hhost]
          rcases List.mem_or_eq_of_mem_set hmem with hmem | heq
          · exact h.served host' config' hmem
          · exact absurd (Handshake.answered.inj heq).1 hhost
  · exact h

/-- A session, in any interleaving. -/
theorem serves_run (h : Serves tools ca D s) {events : List (HandshakeEvent Key)}
    (hD : ∀ index drawn, .mint index drawn ∈ events → D drawn) :
    Serves tools ca D (s.run tools events) := by
  induction events generalizing s with
  | nil => exact h
  | cons event events ih =>
    refine ih ?_ fun index drawn hmem => hD index drawn (List.mem_cons_of_mem event hmem)
    cases event with
    | ask host => exact serves_ask h host
    | mint index drawn => exact serves_mint h index (hD index drawn List.mem_cons_self)

/-- A new session. -/
theorem serves_start (hempty : ca.cache = SortedMap.empty) : Serves tools ca D ⟨ca, []⟩ := by
  refine ⟨rfl, rfl, fun _ _ hmem => absurd hmem List.not_mem_nil, ?_,
    fun _ _ hmem => absurd hmem List.not_mem_nil⟩
  intro host config hcache
  rw [hempty, SortedMap.get?_empty] at hcache
  exact nomatch hcache

/-- A host in the cache stays there, and no call begins to mint for it. -/
theorem minting_step (tools : CaTools Key) {host : Text} (hcache : (s.ca.cache.get? host).isSome)
    (event : HandshakeEvent Key) :
    ((s.step tools event).ca.cache.get? host).isSome ∧
      ∀ index : Nat, (s.step tools event).calls[index]? = some (Handshake.minting host) →
        s.calls[index]? = some (Handshake.minting host) := by
  cases event with
  | ask other =>
    refine ⟨hcache, fun index hindex => ?_⟩
    by_cases hlt : index < s.calls.length
    · rw [← hindex]
      exact (List.getElem?_append_left hlt).symm
    · have hlast := (List.getElem?_append_right (not_lt.mp hlt)).symm.trans hindex
      have hmem := List.mem_singleton.mp (List.mem_of_getElem? hlast)
      -- Only a call for a host without an entry begins to mint.
      by_cases hother : other = host
      · obtain ⟨config, hconfig⟩ := Option.isSome_iff_exists.mp hcache
        rw [hother, hconfig] at hmem
        exact nomatch hmem
      · cases hget : s.ca.cache.get? other with
        | none =>
          rw [hget] at hmem
          exact absurd (Handshake.minting.inj hmem).symm hother
        | some config =>
          rw [hget] at hmem
          exact nomatch hmem
  | mint i drawn =>
    have hset : ∀ answer : Except CaStop (ServerConfig Key), ∀ (other : Text) (index : Nat),
        (s.calls.set i (.answered other answer))[index]? = some (Handshake.minting host) →
          s.calls[index]? = some (Handshake.minting host) := by
      intro answer other index hindex
      -- The call that minted is answered now, and the others are as they were.
      by_cases hi : i = index
      · subst hi
        rw [List.getElem?_set_self'] at hindex
        cases hold : s.calls[i]? with
        | none =>
          rw [hold] at hindex
          exact nomatch hindex
        | some call =>
          rw [hold] at hindex
          exact nomatch hindex
      · rwa [List.getElem?_set_ne hi] at hindex
    show ((s.mint tools i drawn).ca.cache.get? host).isSome ∧
      ∀ index : Nat, (s.mint tools i drawn).calls[index]? = some (Handshake.minting host) →
        s.calls[index]? = some (Handshake.minting host)
    unfold Handshakes.mint
    split
    · rename_i other hother
      split
      · exact ⟨hcache, hset _ other⟩
      · rename_i config hconfig
        refine ⟨?_, hset _ other⟩
        show ((s.ca.cache.insert other config).get? host).isSome
        rw [SortedMap.get?_insert]
        split
        · rfl
        · exact hcache
    · exact ⟨hcache, fun index hindex => hindex⟩

/-- The same over any number of steps. -/
theorem minting_run {host : Text} (hcache : (s.ca.cache.get? host).isSome)
    (events : List (HandshakeEvent Key)) :
    ((s.run tools events).ca.cache.get? host).isSome ∧
      ∀ index : Nat, (s.run tools events).calls[index]? = some (Handshake.minting host) →
        s.calls[index]? = some (Handshake.minting host) := by
  induction events generalizing s with
  | nil => exact ⟨hcache, fun index hindex => hindex⟩
  | cons event events ih =>
    obtain ⟨hkept, hstep⟩ := minting_step tools hcache event
    obtain ⟨hlast, hrest⟩ := ih hkept
    exact ⟨hlast, fun index hindex => hstep index (hrest index hindex)⟩

/-- Alone, the two steps of a call are `server_config`. -/
theorem run_ask_mint (s : Handshakes Key) (host : Text) (drawn : Drawn Key) :
    s.run tools [.ask host, .mint s.calls.length drawn]
      = { ca := (s.ca.serverConfig tools host drawn).2
          calls := s.calls ++ [.answered host (s.ca.serverConfig tools host drawn).1] } := by
  show (s.ask host).mint tools s.calls.length drawn = _
  unfold Handshakes.ask Handshakes.mint CertificateAuthority.serverConfig
  cases hcache : s.ca.cache.get? host with
  | some config => simp
  | none =>
    cases hmint : s.ca.mintConfig tools host drawn <;> simp [hmint]

/-- The authority that a start on a new directory returns, and a session in which it serves a
host. -/
theorem exists_plainSession : ∃ ca : CertificateAuthority Bool, ∃ config,
    (starts plainTools [plainStart true none] CaDir.empty).1 = [.ok ca] ∧
      ca.cache = SortedMap.empty ∧
      .answered "api.test".toList (.ok config) ∈ (Handshakes.run plainTools ⟨ca, []⟩
        [.ask "api.test".toList, .mint 0 (plainDrawn false)]).calls := by
  obtain ⟨ca, hca, hempty, config, hmint⟩ : ∃ ca : CertificateAuthority Bool,
      (starts plainTools [plainStart true none] CaDir.empty).1 = [.ok ca] ∧
        ca.cache = SortedMap.empty ∧ ∃ config,
          ca.mintConfig plainTools "api.test".toList (plainDrawn false) = .ok config :=
    ⟨_, rfl, rfl, _, rfl⟩
  have hserved :
      (ca.serverConfig plainTools "api.test".toList (plainDrawn false)).1 = .ok config := by
    unfold CertificateAuthority.serverConfig
    rw [hempty, SortedMap.get?_empty, hmint]
  refine ⟨ca, config, hca, hempty, ?_⟩
  rw [show 0 = (⟨ca, []⟩ : Handshakes Bool).calls.length from rfl, run_ask_mint, hserved]
  exact List.mem_singleton_self _

/-- **A host is minted for until it is served.** In any interleaving of the calls of a session:
once a call for a host was answered with a configuration, every later one, whatever happens in
between, is answered at once, with what some call for this host was answered with, and no call
begins to mint for it. -/
theorem servedFromCache (hempty : ca.cache = SortedMap.empty)
    (events : List (HandshakeEvent Key)) {host : Text} {config : ServerConfig Key}
    (h : .answered host (.ok config) ∈ (Handshakes.run tools ⟨ca, []⟩ events).calls) :
    ∀ later : List (HandshakeEvent Key),
      let before := Handshakes.run tools ⟨ca, []⟩ events
      let now := before.run tools later
      (∃ cached, .answered host (.ok cached) ∈ now.calls ∧
        (now.ask host).calls = now.calls ++ [.answered host (.ok cached)]) ∧
      ∀ index : Nat, now.calls[index]? = some (Handshake.minting host) →
        before.calls[index]? = some (Handshake.minting host) := by
  have hserves : Serves tools ca (fun _ => True) (Handshakes.run tools ⟨ca, []⟩ events) :=
    serves_run (serves_start hempty) fun _ _ _ => trivial
  generalize Handshakes.run tools ⟨ca, []⟩ events = s at h hserves ⊢
  intro later
  obtain ⟨hcache, hminting⟩ := @minting_run _ tools s _ (hserves.served host config h) later
  have hlater : Serves tools ca (fun _ => True) (s.run tools later) :=
    serves_run hserves fun _ _ _ => trivial
  refine ⟨?_, hminting⟩
  obtain ⟨cached, hcached⟩ := Option.isSome_iff_exists.mp hcache
  refine ⟨cached, hlater.cached host cached hcached, ?_⟩
  unfold Handshakes.ask
  rw [hcached]

/-- After a call for another host, a second call for the host is answered at once. -/
theorem servedFromCache_again : ∃ ca : CertificateAuthority Bool, ∃ cached,
    let now := (Handshakes.run plainTools ⟨ca, []⟩
      [.ask "api.test".toList, .mint 0 (plainDrawn false)]).run plainTools
        [.ask "app.test".toList, .mint 1 (plainDrawn true)]
    (now.ask "api.test".toList).calls
      = now.calls ++ [.answered "api.test".toList (.ok cached)] := by
  obtain ⟨ca, config, -, hempty, hserved⟩ := exists_plainSession
  obtain ⟨⟨cached, -, h⟩, -⟩ := servedFromCache hempty _ hserved
    [.ask "app.test".toList, .mint 1 (plainDrawn true)]
  exact ⟨ca, cached, h⟩

/-- **What a browser is shown.** A process that got an authority of a directory, and handshakes in
any interleaving: whatever a call for a host is answered with is a certificate for this host, signed
by an authority whose certificate signs itself and comes with it, and which one of the starts
founded. The two are valid together from the day before the later of minting and founding until
300 days after the minting, or 1825 days after the founding, whichever is first. -/
theorem chainOfSession (hlaw : tools.Lawful) (hdays : tools.CountsDays)
    (calls : List (CaCall Key)) (hca : .ok ca ∈ (starts tools calls CaDir.empty).1)
    (events : List (HandshakeEvent Key)) {host : Text} {config : ServerConfig Key}
    (h : .answered host (.ok config) ∈ (Handshakes.run tools ⟨ca, []⟩ events).calls) :
    ∃ leaf root, config.chain = [leaf, root] ∧ config.key = leaf.key ∧
      IsLeaf tools ⟨root.params, root.key⟩ host leaf ∧ root.signedWith = root.key ∧
      root.params.isCa = some 0 ∧
      ∃ call ∈ calls, ∃ index drawn, .mint index drawn ∈ events ∧
        ∀ ms, leaf.ValidAt ms ∧ root.ValidAt ms ↔
          (max (dayOf call.drawn.now) (dayOf drawn.now) - 1) * 86400000 ≤ ms ∧
            ms ≤ min (dayOf call.drawn.now + 1825) (dayOf drawn.now + 300) * 86400000 := by
  obtain ⟨-, hnone⟩ | ⟨root, ⟨call, hcall, hroot⟩, -, hall⟩ := oneAuthority hlaw calls
  · exact absurd hca (hnone ca)
  · have hof := hall ca hca
    have hserves : Serves tools ca (fun drawn => ∃ index, .mint index drawn ∈ events)
        (Handshakes.run tools ⟨ca, []⟩ events) :=
      serves_run (serves_start hof.cache) fun index drawn hmem => ⟨index, hmem⟩
    obtain ⟨drawn, ⟨index, hmem⟩, hmint⟩ := hserves.minted host config h
    obtain ⟨leaf, hleaf, hchain, hkey, hbefore, hafter⟩ := mintConfig_eq_ok hlaw hmint
    -- The issuer in memory is the root, although its parameters were made at this start.
    rw [hof.certDer] at hchain
    have hauthority : root.params.isCa = some 0 := by
      obtain ⟨_, -, hparams⟩ := bind_eq_ok hroot.params
      obtain ⟨_, -, hparams⟩ := bind_eq_ok hparams
      rw [← Except.ok.inj hparams]
    refine ⟨leaf, root, hchain, hkey, ?_, hroot.signedWith, hauthority, call, hcall, index, drawn,
      hmem, fun ms => ?_⟩
    · exact ⟨hleaf.signedWith.trans hof.key, hleaf.issuerName.trans hof.issuerName,
        hleaf.commonName, hleaf.names, hleaf.serverAuth, hleaf.isCa⟩
    · rw [validAt_leaf hdays hbefore hafter, validAt_root hdays hroot]
      omega

end Session

/-- The certificate of 29 July 2026 is shown with its authority. -/
theorem chainOfSession_july : ∃ leaf root : Certificate Bool, root.signedWith = root.key ∧
    IsLeaf plainTools ⟨root.params, root.key⟩ "api.test".toList leaf := by
  obtain ⟨ca, config, hca, -, hserved⟩ := exists_plainSession
  have hmem : .ok ca ∈ (starts plainTools [plainStart true none] CaDir.empty).1 := by
    rw [hca]
    exact List.mem_singleton_self _
  obtain ⟨leaf, root, -, -, hleaf, hroot, -⟩ :=
    chainOfSession plainTools_lawful plainTools_countsDays _ hmem _ hserved
  exact ⟨leaf, root, hroot, hleaf⟩

end Gabriel.Proxy.Ca

import Gabriel.Core.Numbers
import Gabriel.Lib.FileWrite
import Gabriel.Lib.SortedMap
import Gabriel.Lib.Utf8

/-!
# `Gabriel.Proxy.Ca`: the interception certificate authority

`gabriel-proxy/src/ca.rs`, and `date_parts` of `gabriel-core/src/lib.rs`. The authority is two files
of a directory, written one after the other, and what a process has of them in memory. The
directory is given. A file is its permission bits and its bytes. `load_or_create` asks whether the
two files exist, and that question is always answered: `Path::exists` says no when it fails, which
is not modelled.

A certificate is what it says and whose signature it bears. PEM, the signing, subject names, dates
and the TLS library are the fields of `CaTools`. What a call draws at random and where it fails are
its arguments.

`server_config` looks a host up under a lock, mints without it, and inserts under it again. So
`Handshakes` takes a call apart into two steps, between which the other calls go on.
-/

set_option autoImplicit false

namespace Gabriel.Proxy.Ca

open Gabriel.Core Text FileWrite

/-! ### Certificates -/

/-- Calendar date some days away from an instant. -/
def dateParts (ms : UInt64) (offsetDays : Int64) : Int64 × UInt32 × UInt32 :=
  civilFromDays ((ms / 1000).toInt64 / 86400 + offsetDays)

/-- `LEAF_VALIDITY_DAYS`. -/
def leafValidityDays : Int64 := 300

/-- `CA_VALIDITY_YEARS`. -/
def caValidityYears : Int64 := 5

/-- What a certificate is good for. -/
inductive KeyUsage where
  | digitalSignature
  | keyEncipherment
  | keyCertSign
  | crlSign
  deriving DecidableEq

/-- A name of the subject. -/
inductive San where
  | dns (name : Text)
  | ip (address : Text)
  deriving DecidableEq

/-- The name of a subject. -/
structure DistinguishedName where
  commonName : Text
  organizationName : Option Text
  deriving DecidableEq

/-- What a certificate says about its subject. -/
structure CertificateParams where
  subjectAltNames : List San
  distinguishedName : DistinguishedName
  /-- The path length of an authority. -/
  isCa : Option Nat
  keyUsages : List KeyUsage
  serverAuth : Bool
  /-- The days, from the epoch, with whose midnights the validity begins and ends. -/
  notBefore : ℤ
  notAfter : ℤ
  deriving DecidableEq

/-- Who signs a certificate: its own parameters and key. -/
structure Issuer (Key : Type) where
  params : CertificateParams
  key : Key

/-- A certificate: what it says, for which key, and who signed it. -/
structure Certificate (Key : Type) where
  params : CertificateParams
  key : Key
  issuerName : DistinguishedName
  signedWith : Key
  /-- What the signature has drawn. -/
  signature : Nat
  deriving DecidableEq

/-- The two files. -/
inductive CaPath where
  | dir
  | cert
  | key
  deriving DecidableEq

/-- Their names in the directory. -/
def CaPath.name : CaPath → Text
  | dir => []
  | cert => "gabriel-ca.pem".toList
  | key => "gabriel-ca.key".toList

/-- `CaError`. -/
inductive CaError where
  | io (path : CaPath) (message : Text)
  | rcgen (message : Text)
  | noCertificate (path : CaPath)
  | tls (message : Text)
  deriving DecidableEq

/-- Why a call returns nothing. -/
inductive CaStop where
  | error (error : CaError)
  | panic
  deriving DecidableEq

/-- The parts that come from libraries. -/
structure CaTools (Key : Type) where
  /-- The certificate for a key that an issuer signs. The number is what the signature draws. -/
  sign : CertificateParams → Key → Issuer Key → Nat → Certificate Key
  certPem : Certificate Key → Text
  /-- The first certificate of a PEM text. -/
  parseCert : Text → Option (Certificate Key)
  keyPem : Key → Text
  parseKey : Text → Except Text Key
  /-- The name of a host as the subject of a certificate. -/
  subjectAltName : Text → Except Text San
  /-- The day of a date. For a date that does not exist, or is out of range, it panics. -/
  dateTimeYmd : Int32 → UInt8 → UInt8 → Option ℤ
  /-- Why a key has no DER form. -/
  keyDerError : Key → Option Text
  /-- Why the TLS library refuses a chain and its key. -/
  singleCertError : List (Certificate Key) → Key → Option Text

/-- What minting a certificate reads and draws. -/
structure Drawn (Key : Type) where
  now : UInt64
  key : Except Text Key
  signature : Except Text Nat

variable {Key : Type}

/-- The midnight some days away from an instant. -/
def midnight (tools : CaTools Key) (now : UInt64) (offsetDays : Int64) : Except CaStop ℤ :=
  let date := dateParts now offsetDays
  match tools.dateTimeYmd date.1.toInt32 date.2.1.toUInt8 date.2.2.toUInt8 with
  | some day => .ok day
  | none => .error .panic

/-- A result of the certificate library. -/
def rcgen {α : Type} : Except Text α → Except CaStop α
  | .ok a => .ok a
  | .error message => .error (.error (.rcgen message))

/-- A check of the TLS library. -/
def tlsResult : Option Text → Except CaStop Unit
  | none => .ok ()
  | some message => .error (.error (.tls message))

/-- Sign a certificate. -/
def signedBy (tools : CaTools Key) (params : CertificateParams) (key : Key) (issuer : Issuer Key)
    (signature : Except Text Nat) : Except CaStop (Certificate Key) :=
  (rcgen signature).map (tools.sign params key issuer)

/-- What the certificate of the authority says. -/
def caParams (tools : CaTools Key) (now : UInt64) : Except CaStop CertificateParams := do
  let notBefore ← midnight tools now (-1)
  let notAfter ← midnight tools now (caValidityYears * 365)
  pure
    { subjectAltNames := []
      distinguishedName :=
        ⟨"Gabriel Local CA".toList, some "Gabriel (local development)".toList⟩
      isCa := some 0
      keyUsages := [.keyCertSign, .crlSign, .digitalSignature]
      serverAuth := false
      notBefore
      notAfter }

/-! ### The directory -/

/-- A file of the directory. -/
structure CaFile where
  mode : UInt32
  bytes : List UInt8
  deriving DecidableEq

/-- The two files of the directory. -/
structure CaDir where
  cert : Option CaFile
  key : Option CaFile
  deriving DecidableEq

/-- The directory before the first use. -/
def CaDir.empty : CaDir := ⟨none, none⟩

/-- A file after a write. It has the mode it was created with. -/
def writeFile (file : Option CaFile) (bytes : List UInt8) (mode : UInt32) (fault : Option Fault) :
    Option CaFile :=
  (write (file.map (·.bytes)) bytes fault).map fun bytes =>
    { mode := (file.map (·.mode)).getD mode, bytes }

/-- How a write ended. -/
def writeResult (path : CaPath) : Option Fault → Except CaStop Unit
  | none => .ok ()
  | some _ => .error (.error (.io path "write failed".toList))

/-- Read a file. `fault` says why it cannot be read, if it cannot. -/
def readFile (path : CaPath) (file : Option CaFile) (fault : Option Text) : Except CaStop Text :=
  match fault with
  | some message => .error (.error (.io path message))
  | none =>
    match file with
    | none => .error (.error (.io path "No such file or directory".toList))
    | some file =>
      match Utf8.decode? file.bytes with
      | none => .error (.error (.io path "stream did not contain valid UTF-8".toList))
      | some text => .ok text

/-- Create the directory, if it is not there. -/
def createDir : Option Text → Except CaStop Unit
  | none => .ok ()
  | some message => .error (.error (.io .dir message))

/-- The certificate of a text. -/
def firstCertificate (tools : CaTools Key) (pem : Text) : Except CaStop (Certificate Key) :=
  match tools.parseCert pem with
  | some cert => .ok cert
  | none => .error (.error (.noCertificate .cert))

/-! ### The authority -/

/-- The TLS configuration of a host. -/
structure ServerConfig (Key : Type) where
  chain : List (Certificate Key)
  key : Key
  alpnProtocols : List Text
  deriving DecidableEq

/-- `CertificateAuthority`: what a process holds once it has one. -/
structure CertificateAuthority (Key : Type) where
  certDer : Certificate Key
  certPem : Text
  issuer : Issuer Key
  cache : SortedMap Text (ServerConfig Key)

/-- What a call of `load_or_create` draws, and where it fails. -/
structure CaCall (Key : Type) where
  drawn : Drawn Key
  dirFault : Option Text := none
  certFault : Option Fault := none
  keyFault : Option Fault := none
  certRead : Option Text := none
  keyRead : Option Text := none

namespace CertificateAuthority

/-- Create the directory, and draw a new authority. -/
def newAuthority (tools : CaTools Key) (call : CaCall Key) :
    Except CaStop (CertificateAuthority Key) := do
  createDir call.dirFault
  let key ← rcgen call.drawn.key
  let params ← caParams tools call.drawn.now
  let cert ← signedBy tools params key ⟨params, key⟩ call.drawn.signature
  pure { certDer := cert, certPem := tools.certPem cert, issuer := ⟨params, key⟩,
         cache := SortedMap.empty }

/-- Write a new authority: its certificate, then its key. -/
def create (tools : CaTools Key) (call : CaCall Key) (disk : CaDir) :
    Except CaStop (CertificateAuthority Key) × CaDir :=
  match newAuthority tools call with
  | .error stop => (.error stop, disk)
  | .ok ca =>
    let disk :=
      { disk with cert := writeFile disk.cert (Utf8.encode ca.certPem) 0o644 call.certFault }
    match writeResult .cert call.certFault with
    | .error stop => (.error stop, disk)
    | .ok () =>
      let disk := { disk with
        key := writeFile disk.key (Utf8.encode (tools.keyPem ca.issuer.key)) 0o600 call.keyFault }
      ((writeResult .key call.keyFault).map fun _ => ca, disk)

/-- Read the authority. -/
def load (tools : CaTools Key) (call : CaCall Key) (disk : CaDir) :
    Except CaStop (CertificateAuthority Key) := do
  let certPem ← readFile .cert disk.cert call.certRead
  let keyPem ← readFile .key disk.key call.keyRead
  let key ← rcgen (tools.parseKey keyPem)
  let certDer ← firstCertificate tools certPem
  let params ← caParams tools call.drawn.now
  pure { certDer, certPem, issuer := ⟨params, key⟩, cache := SortedMap.empty }

/-- Load the authority, or generate one on first use. -/
def loadOrCreate (tools : CaTools Key) (call : CaCall Key) (disk : CaDir) :
    Except CaStop (CertificateAuthority Key) × CaDir :=
  if disk.cert.isSome ∧ disk.key.isSome then (load tools call disk, disk)
  else create tools call disk

/-- One call after the other, with what each returns. -/
def starts (tools : CaTools Key) :
    List (CaCall Key) → CaDir → List (Except CaStop (CertificateAuthority Key)) × CaDir
  | [], disk => ([], disk)
  | call :: calls, disk =>
    let first := loadOrCreate tools call disk
    let rest := starts tools calls first.2
    (first.1 :: rest.1, rest.2)

/-! ### Hosts -/

/-- A certificate for a host, with its key. -/
def mintLeaf (tools : CaTools Key) (ca : CertificateAuthority Key) (host : Text)
    (drawn : Drawn Key) : Except CaStop (Certificate Key × Key) := do
  let key ← rcgen drawn.key
  let san ← rcgen (tools.subjectAltName host)
  let notBefore ← midnight tools drawn.now (-1)
  let notAfter ← midnight tools drawn.now leafValidityDays
  let cert ← signedBy tools
    { subjectAltNames := [san], distinguishedName := ⟨host, none⟩, isCa := none,
      keyUsages := [.digitalSignature, .keyEncipherment], serverAuth := true,
      notBefore, notAfter } key ca.issuer drawn.signature
  tlsResult (tools.keyDerError key)
  pure (cert, key)

/-- A configuration that presents a new certificate for a host. -/
def mintConfig (tools : CaTools Key) (ca : CertificateAuthority Key) (host : Text)
    (drawn : Drawn Key) : Except CaStop (ServerConfig Key) := do
  let (leaf, key) ← ca.mintLeaf tools host drawn
  tlsResult (tools.singleCertError [leaf, ca.certDer] key)
  pure { chain := [leaf, ca.certDer], key, alpnProtocols := ["http/1.1".toList] }

/-- Keep the configuration of a host. -/
def remember (ca : CertificateAuthority Key) (host : Text) (config : ServerConfig Key) :
    CertificateAuthority Key :=
  { ca with cache := ca.cache.insert host config }

/-- A TLS server configuration presenting a certificate for a host. -/
def serverConfig (tools : CaTools Key) (ca : CertificateAuthority Key) (host : Text)
    (drawn : Drawn Key) : Except CaStop (ServerConfig Key) × CertificateAuthority Key :=
  match ca.cache.get? host with
  | some config => (.ok config, ca)
  | none =>
    match ca.mintConfig tools host drawn with
    | .error stop => (.error stop, ca)
    | .ok config => (.ok config, ca.remember host config)

end CertificateAuthority

/-- A call of `server_config`. -/
inductive Handshake (Key : Type) where
  /-- It found nothing in the cache, and mints. -/
  | minting (host : Text)
  | answered (host : Text) (result : Except CaStop (ServerConfig Key))

/-- The calls of a session, side by side. -/
structure Handshakes (Key : Type) where
  ca : CertificateAuthority Key
  calls : List (Handshake Key) := []

/-- A step of a call. -/
inductive HandshakeEvent (Key : Type) where
  | ask (host : Text)
  | mint (index : Nat) (drawn : Drawn Key)

namespace Handshakes

/-- A call begins, and looks its host up. -/
def ask (s : Handshakes Key) (host : Text) : Handshakes Key :=
  { s with calls := s.calls ++ [match s.ca.cache.get? host with
      | some config => .answered host (.ok config)
      | none => .minting host] }

/-- A call that found nothing mints, and inserts. -/
def mint (tools : CaTools Key) (s : Handshakes Key) (index : Nat) (drawn : Drawn Key) :
    Handshakes Key :=
  match s.calls[index]? with
  | some (.minting host) =>
    match s.ca.mintConfig tools host drawn with
    | .error stop => { s with calls := s.calls.set index (.answered host (.error stop)) }
    | .ok config =>
      { ca := s.ca.remember host config
        calls := s.calls.set index (.answered host (.ok config)) }
  | _ => s

/-- One event: a call looks into the cache, or a minting ends. -/
def step (tools : CaTools Key) (s : Handshakes Key) : HandshakeEvent Key → Handshakes Key
  | .ask host => s.ask host
  | .mint index drawn => s.mint tools index drawn

/-- Events, one after the other. -/
def run (tools : CaTools Key) (s : Handshakes Key) (events : List (HandshakeEvent Key)) :
    Handshakes Key :=
  events.foldl (step tools) s

end Handshakes

end Gabriel.Proxy.Ca

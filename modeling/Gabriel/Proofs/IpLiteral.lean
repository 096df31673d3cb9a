import Gabriel.Proofs.Session

/-!
# `Gabriel.Proofs.IpLiteral`: cookies of a host that is an address

An address has no parent domain, so a cookie it sets should go back to it alone. The suffix rule
of `domainMatches` knows no addresses: it takes the numbers of `127.0.0.1` for labels.

A cookie of an address stays when the header has no `Domain`, or the parser refuses it, or the
cookie has expired when it arrives. The other way round, an accepted `Domain` sends it to a host
below that domain, which the proof names: the domain with one more label in front. No address is
spelled with an `x`, so that host is another one. The theorems:

* `mem_addressChars`, `x_not_mem_of_isIpLiteral`: the characters of an address.
* `asciiLower_of_covers`: a suffix of a lower-case text is in lower case.
* `neverTravels_iff`: over every store, clock and request, a cookie of an address never goes to
  another host exactly in the three cases above.
-/

set_option autoImplicit false

namespace Gabriel.Engine

open Gabriel.Core Text

/-! ### Addresses -/

/-- The characters of an address. -/
def addressChars : Text := "0123456789abcdefABCDEF.:[]".toList

/-- Four numbers below 256, with dots between them. -/
def isIpv4Literal (host : Text) : Bool :=
  host.all (· ∈ "0123456789.".toList) && (host.splitOn '.').length == 4
    && (host.splitOn '.').all fun part => (parseDigits part).any (· ≤ 255)

/-- Hexadecimal digits, colons and dots in brackets. -/
def isIpv6Literal (host : Text) : Bool :=
  host.head? == some '[' && host.getLast? == some ']' && host.all (· ∈ addressChars)

/-- A host that is an address. -/
def isIpLiteral (host : Text) : Bool := isIpv4Literal host || isIpv6Literal host

/-- An address has no other characters. -/
theorem mem_addressChars {host : Text} (h : isIpLiteral host = true) :
    ∀ c ∈ host, c ∈ addressChars := by
  unfold isIpLiteral isIpv4Literal isIpv6Literal at h
  simp only [Bool.or_eq_true, Bool.and_eq_true, List.all_eq_true, decide_eq_true_eq] at h
  intro c hc
  rcases h with h | h
  · have hdigits : ∀ d ∈ "0123456789.".toList, d ∈ addressChars :=
      forall_mem_of_all (by decide)
    exact hdigits c (h.1.1 c hc)
  · exact h.2 c hc

/-- An address has no white space around it. -/
theorem trim_of_isIpLiteral {host : Text} (h : isIpLiteral host = true) : trim host = host := by
  have hsolid : ∀ c ∈ addressChars, isWhitespace c = false :=
      forall_mem_of_all (by decide)
  refine trim_of_forall ?_
  intro c hc
  exact hsolid c (mem_addressChars h c hc)

/-- No address is spelled with an `x`. -/
theorem x_not_mem_of_isIpLiteral {host : Text} (h : isIpLiteral host = true) :
    'x' ∉ asciiLower host := by
  have hlower : ∀ c ∈ addressChars, c.toLower ≠ 'x' :=
      forall_mem_of_all (by decide)
  intro hx
  obtain ⟨c, hc, hcx⟩ := List.mem_map.mp hx
  exact hlower c (mem_addressChars h c hc) hcx

/-! ### Where its cookies go -/

/-- The cookie of the header, recorded at this host, never goes to another one: in no store, at no
later time. -/
def NeverTravels (parsedAt storedAt : UInt64) (header host path : Text) : Prop :=
  ∀ c, Cookie.parse parsedAt header host path = some c →
    ∀ (store : SessionStore) session nowMs host' path' isSecure, storedAt ≤ nowMs →
      asciiLower host' ≠ asciiLower host →
        c ∉ store.matching nowMs session host' path' isSecure

/-- A suffix of a lower-case text is in lower case. -/
theorem asciiLower_of_covers {d host : Text} (h : Covers d (asciiLower host)) :
    asciiLower d = d := by
  have hsuffix : d <:+ asciiLower host := by
    rcases h with h | h
    · rw [h]
    · exact (List.suffix_cons '.' d).trans h
  obtain ⟨pre, hpre⟩ := hsuffix
  have hidem := asciiLower_idem host
  rw [← hpre, asciiLower_append] at hidem
  have hlength : (asciiLower pre).length = pre.length := List.length_map _
  exact (List.append_inj hidem hlength).2

/-- A cookie of an address stays exactly when its header has no `Domain`, is refused, or arrives
expired. -/
theorem neverTravels_iff (parsedAt storedAt : UInt64) (header host path : Text)
    (hip : isIpLiteral host = true) :
    NeverTravels parsedAt storedAt header host path ↔
      Cookie.hasAttr "domain".toList header = false ∨
        ∀ c, Cookie.parse parsedAt header host path = some c → c.isExpired storedAt = true := by
  have htrim := trim_of_isIpLiteral hip
  constructor
  · intro hstays
    rw [or_iff_not_imp_left, Bool.not_eq_false]
    intro hdomain c hparse
    by_contra hlive
    rw [Bool.not_eq_true] at hlive
    obtain ⟨hflag, -, -, hok⟩ := Cookie.parse_fields hparse
    have hwide : c.hostOnly = false := by rw [hflag, hdomain]; rfl
    rw [htrim] at hok
    unfold Cookie.DomainOk at hok
    rw [if_neg (by simp [hwide])] at hok
    -- The host `x.` in front of the accepted domain is another one, and the cookie goes there.
    have hlower : asciiLower ('x' :: '.' :: c.domain) = 'x' :: '.' :: c.domain := by
      show 'x' :: '.' :: asciiLower c.domain = _
      rw [asciiLower_of_covers hok.2]
    have hother : asciiLower ('x' :: '.' :: c.domain) ≠ asciiLower host := by
      intro hsame
      refine x_not_mem_of_isIpLiteral hip ?_
      rw [← hsame, hlower]
      exact List.mem_cons_self
    have hjar : c ∈ (SessionStore.new.insert storedAt [] c).jar [] := by
      rw [SessionStore.jar_insert, if_pos rfl, hlive]
      simp
    refine hstays c hparse (SessionStore.new.insert storedAt [] c) [] storedAt _ c.path true
      (UInt64.le_refl _) hother (SessionStore.mem_matching.mpr ⟨hjar, hlive, ?_⟩)
    rw [SessionStore.matchesRequest_iff, hlower, if_neg (by simp [hwide])]
    exact ⟨fun _ => rfl, Or.inr (List.suffix_cons 'x' _), Or.inl rfl⟩
  · intro h c hparse store session nowMs host' path' isSecure hlater hother hmem
    obtain ⟨-, hlive, hmatch⟩ := SessionStore.mem_matching.mp hmem
    rcases h with hnone | hexpired
    · obtain ⟨hflag, -, -, hok⟩ := Cookie.parse_fields hparse
      have honly : c.hostOnly = true := by rw [hflag, hnone]; rfl
      rw [htrim] at hok
      unfold Cookie.DomainOk at hok
      rw [if_pos honly] at hok
      have hhost := (SessionStore.matchesRequest_iff.mp hmatch).2.1
      rw [if_pos honly, hok] at hhost
      exact hother hhost
    · have hstill := SessionStore.isExpired_mono hlater hlive
      rw [hexpired c hparse] at hstill
      exact absurd hstill (by simp)

/-- A login at an address without a `Domain`. -/
theorem neverTravels_iff_login :
    NeverTravels 0 0 "sid=abc".toList "127.0.0.1".toList "/".toList :=
  (neverTravels_iff 0 0 _ _ _ (by decide)).mpr (Or.inl (by decide))

/-- The cookie that `127.0.0.1` sets for `0.0.1` goes to `10.0.0.1`. -/
theorem not_neverTravels_suffix :
    ¬ NeverTravels 0 0 "sid=abc; Domain=0.0.1".toList "127.0.0.1".toList "/".toList := by
  intro hstays
  have hsent : (Cookie.parse 0 "sid=abc; Domain=0.0.1".toList "127.0.0.1".toList "/".toList).any
      (fun c => decide (c ∈ (SessionStore.new.insert 0 [] c).matching 0 [] "10.0.0.1".toList
        "/".toList false)) = true := by decide
  cases hparse : Cookie.parse 0 "sid=abc; Domain=0.0.1".toList "127.0.0.1".toList "/".toList with
  | none =>
    rw [hparse] at hsent
    exact absurd hsent (by simp)
  | some c =>
    rw [hparse, Option.any_some, decide_eq_true_eq] at hsent
    exact hstays c hparse _ [] 0 _ _ _ (UInt64.le_refl _) (by decide) hsent

end Gabriel.Engine

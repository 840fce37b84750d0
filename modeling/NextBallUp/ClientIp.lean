import NextBallUp.Lib.IpAddress
import NextBallUp.Lib.Json

/-!
# The address of a client

The address for rate limits and the audit log. Behind trusted proxies it is taken from the header
`X-Forwarded-For`, to which each of them has appended the address from which it was called, behind
whatever the client itself has written there.

## Main definitions

* `clientIp`: the address
* `forwardedFor`: the header, from the text of the client and the appended hops

## Main results

* `clientIp_forwardedFor`: **the rightmost untrusted hop decides** if the client has written
  addresses, and the peer otherwise
* `exists_clientIp_ne`: what a client can write so that the peer decides

## What is deliberately absent

Header fields of the same name after the first one, which the framework does not return.
-/

namespace NextBallUp.ClientIp

structure Request where
  /-- `request.client.host` -/
  host : Option (List ℕ)
  /-- `request.headers.get("x-forwarded-for")` -/
  forwarded : Option (List ℕ)

/-- `_parsed_ip` -/
def parsedIp (value : Option (List ℕ)) : Option IpAddress :=
  match value with
  | none => none
  | some value => if value = [] then none else ipAddress (strip isWhitespace value)

/-- `_trusted_proxy_matchers` -/
def trustedProxyMatchers : List (List ℕ) → List IpAddress × List IpNetwork
  | [] => ([], [])
  | value :: values =>
    let (addresses, networks) := trustedProxyMatchers values
    match ipAddress value with
    | some address => (address :: addresses, networks)
    | none =>
      match ipNetwork value with
      | some network => (addresses, network :: networks)
      | none => (addresses, networks)

/-- `_is_trusted_proxy`, for `trusted_proxy_ips` of the settings. -/
def isTrustedProxy (trustedProxyIps : List (List ℕ)) (value : IpAddress) : Bool :=
  let (addresses, networks) := trustedProxyMatchers trustedProxyIps
  addresses.contains value || networks.any fun network => network.contains value

/-- `client_ip` -/
def clientIp (trustedProxyIps : List (List ℕ)) (request : Request) : Option (List ℕ) :=
  let peer := parsedIp request.host
  let peerIp := peer.map IpAddress.str
  match peer, request.forwarded with
  | some peer, some forwarded =>
    if isTrustedProxy trustedProxyIps peer ∧ forwarded ≠ [] then
      match (forwarded.splitOn 44).mapM fun hop => parsedIp (some hop) with
      | none => peerIp
      | some chain =>
        -- from the trusted peer back toward the client
        match (chain ++ [peer]).reverse.find? fun hop => !isTrustedProxy trustedProxyIps hop with
        | some hop => some hop.str
        | none => peerIp
    else peerIp
  | _, _ => peerIp

/-! ### Hops -/

variable {trusted : List (List ℕ)} {peer : IpAddress} {host : List ℕ}

/-- The header: the text of the client, if it has sent one, and the hops that were appended. -/
def forwardedFor (client : Option (List ℕ)) (appended : List (List ℕ)) : List ℕ :=
  [44].intercalate (client.toList ++ appended)

/-- The text of a client is a list of addresses. -/
def IsWellFormed (client : Option (List ℕ)) : Prop :=
  ∀ text ∈ client, ∀ hop ∈ text.splitOn 44, parsedIp (some hop) ≠ none

instance (client : Option (List ℕ)) : Decidable (IsWellFormed client) :=
  inferInstanceAs (Decidable (∀ text ∈ client, ∀ hop ∈ text.splitOn 44, parsedIp (some hop) ≠ none))

/-- What the proxies have appended: an address, and behind it only those of other trusted proxies.
-/
structure Appended (trusted : List (List ℕ)) (appended : List (List ℕ)) (address : IpAddress) :
    Prop where
  isHop : ∀ hop ∈ appended, 44 ∉ hop ∧ parsedIp (some hop) ≠ none
  rightmost : ∃ front hop back, appended = front ++ hop :: back ∧
    parsedIp (some hop) = some address ∧
    isTrustedProxy trusted address = false ∧
    ∀ hop' ∈ back, ∀ a, parsedIp (some hop') = some a → isTrustedProxy trusted a = true

/-- The hops of the header. -/
theorem splitOn_forwardedFor (client : Option (List ℕ)) {appended : List (List ℕ)}
    (h : ∀ hop ∈ appended, 44 ∉ hop) (hne : appended ≠ []) :
    (forwardedFor client appended).splitOn 44 =
      (client.map (List.splitOn 44)).getD [] ++ appended := by
  have hsplit := List.splitOn_intercalate 44 h hne
  cases client with
  | none => exact hsplit
  | some text =>
    have hcons : forwardedFor (some text) appended = text ++ 44 :: [44].intercalate appended := by
      obtain ⟨hop, hops, rfl⟩ := List.exists_cons_of_ne_nil hne
      simp [forwardedFor, List.intercalate]
    rw [hcons, List.splitOn_append_cons_self, hsplit]
    rfl

theorem forwardedFor_ne_nil (client : Option (List ℕ)) {appended : List (List ℕ)}
    {address : IpAddress}
    (h : Appended trusted appended address) : forwardedFor client appended ≠ [] := by
  intro hnil
  obtain ⟨front, hop, back, rfl, hparsed, -, -⟩ := h.rightmost
  have hsplit := splitOn_forwardedFor client (fun hop hmem => (h.isHop hop hmem).1) (by simp)
  rw [hnil, List.splitOn_nil] at hsplit
  have hmem : hop ∈ [[]] := by
    rw [hsplit]
    simp
  rw [List.mem_singleton.mp hmem] at hparsed
  cases hparsed

/-- One hop that is no address is enough for the chain not to be read. -/
theorem mapM_eq_none {α β : Type} {f : α → Option β} {l : List α} {a : α} (ha : a ∈ l)
    (h : f a = none) : l.mapM f = none := by
  induction l with
  | nil => cases ha
  | cons b l ih =>
    rw [List.mapM_cons]
    rcases List.mem_cons.mp ha with rfl | ha
    · rw [h]
      rfl
    · rw [ih ha]
      cases f b <;> rfl

theorem mapM_append_some {α β : Type} {f : α → Option β} {l l' : List α} {bs bs' : List β}
    (h : l.mapM f = some bs) (h' : l'.mapM f = some bs') : (l ++ l').mapM f = some (bs ++ bs') := by
  rw [List.mapM_append, h, h']
  rfl

/-- The addresses of hops that are all addresses. -/
theorem exists_mapM_eq_some {α β : Type} {f : α → Option β} {l : List α} (h : ∀ a ∈ l, f a ≠ none) :
    ∃ bs, l.mapM f = some bs ∧ ∀ b ∈ bs, ∃ a ∈ l, f a = some b := by
  induction l with
  | nil => exact ⟨[], rfl, fun b hb => (List.not_mem_nil hb).elim⟩
  | cons a l ih =>
    obtain ⟨bs, hbs, hmem⟩ := ih fun a' ha' => h a' (List.mem_cons_of_mem _ ha')
    obtain ⟨b, hb⟩ := Option.ne_none_iff_exists'.mp (h a List.mem_cons_self)
    refine ⟨b :: bs, by rw [List.mapM_cons, hb, hbs]; rfl, fun c hc => ?_⟩
    rcases List.mem_cons.mp hc with rfl | hc
    · exact ⟨a, List.mem_cons_self, hb⟩
    · obtain ⟨a', ha', hf⟩ := hmem c hc
      exact ⟨a', List.mem_cons_of_mem _ ha', hf⟩

/-- From the right, nothing in front of the untrusted hop is looked at. -/
theorem find?_reverse_append {α : Type} {p : α → Bool} {a : α} {front back : List α}
    (ha : p a = true)
    (hback : ∀ b ∈ back, p b = false) : (front ++ a :: back).reverse.find? p = some a := by
  rw [List.reverse_append, List.reverse_cons, List.append_assoc, List.find?_append]
  have hnone : back.reverse.find? p = none := by
    rw [List.find?_eq_none]
    intro b hb
    rw [hback b (List.mem_reverse.mp hb)]
    decide
  rw [hnone, Option.none_or, List.singleton_append, List.find?_cons_of_pos ha]

theorem clientIp_of_chain {forwarded : List ℕ} {chain : List IpAddress} {hop : IpAddress}
    (hpeer : parsedIp (some host) = some peer) (htrusted : isTrustedProxy trusted peer = true)
    (hne : forwarded ≠ [])
    (hchain : (forwarded.splitOn 44).mapM (fun hop => parsedIp (some hop)) = some chain)
    (hfind : (chain ++ [peer]).reverse.find? (fun hop => !isTrustedProxy trusted hop) = some hop) :
    clientIp trusted ⟨some host, some forwarded⟩ = some hop.str := by
  simp only [clientIp, hpeer, Option.map_some, htrusted, hne, hchain, hfind, ne_eq,
    not_false_eq_true, and_self, if_true]

theorem clientIp_of_no_chain {forwarded : List ℕ} (hpeer : parsedIp (some host) = some peer)
    (hchain : (forwarded.splitOn 44).mapM (fun hop => parsedIp (some hop)) = none) :
    clientIp trusted ⟨some host, some forwarded⟩ = some peer.str := by
  simp only [clientIp, hpeer, Option.map_some, hchain, ite_self]

/-- **The rightmost untrusted hop decides.** -/
theorem clientIp_of_isWellFormed {client : Option (List ℕ)} {appended : List (List ℕ)}
    {address : IpAddress} (hpeer : parsedIp (some host) = some peer)
    (htrusted : isTrustedProxy trusted peer = true) (h : Appended trusted appended address)
    (hclient : IsWellFormed client) :
    clientIp trusted ⟨some host, some (forwardedFor client appended)⟩ = some address.str := by
  have hhop := h.isHop
  obtain ⟨front, hop, back, rfl, hparsed, huntrusted, hback⟩ := h.rightmost
  obtain ⟨texts, htexts⟩ : ∃ texts, texts = (client.map (List.splitOn 44)).getD [] := ⟨_, rfl⟩
  have hsplit : (forwardedFor client (front ++ hop :: back)).splitOn 44 =
      texts ++ front ++ hop :: back := by
    rw [splitOn_forwardedFor client (fun hop hmem => (hhop hop hmem).1) (by simp), htexts,
      List.append_assoc]
  have hread : ∀ text ∈ texts ++ front, parsedIp (some text) ≠ none := by
    intro text ht
    rcases List.mem_append.mp ht with ht | ht
    · rw [htexts] at ht
      cases client with
      | none => cases ht
      | some c => exact hclient c rfl text ht
    · exact (hhop text (List.mem_append_left _ ht)).2
  obtain ⟨as, has, -⟩ := exists_mapM_eq_some hread
  obtain ⟨bs, hbs, hmem⟩ := exists_mapM_eq_some fun text ht =>
    (hhop text (List.mem_append_right front (List.mem_cons_of_mem hop ht))).2
  have hchain : (texts ++ front ++ hop :: back).mapM (fun hop => parsedIp (some hop)) =
      some (as ++ address :: bs) := by
    refine mapM_append_some has ?_
    rw [List.mapM_cons, hparsed, hbs]
    rfl
  have hfind : (as ++ address :: bs ++ [peer]).reverse.find?
      (fun hop => !isTrustedProxy trusted hop) = some address := by
    rw [List.append_assoc, List.cons_append]
    refine find?_reverse_append (by rw [huntrusted]; rfl) fun b hb => ?_
    rcases List.mem_append.mp hb with hb | hb
    · obtain ⟨text, ht, hb⟩ := hmem b hb
      rw [hback text ht b hb]
      rfl
    · rw [List.mem_singleton.mp hb, htrusted]
      rfl
  exact clientIp_of_chain hpeer htrusted (forwardedFor_ne_nil client h) (hsplit ▸ hchain) hfind

/-- **One hop that is no address lets the peer decide.** -/
theorem clientIp_of_not_isWellFormed {client : Option (List ℕ)} {appended : List (List ℕ)}
    {address : IpAddress} (hpeer : parsedIp (some host) = some peer)
    (h : Appended trusted appended address) (hclient : ¬ IsWellFormed client) :
    clientIp trusted ⟨some host, some (forwardedFor client appended)⟩ = some peer.str := by
  obtain ⟨text, htext, hop, hmem, hnone⟩ : ∃ text ∈ client, ∃ hop ∈ text.splitOn 44,
      parsedIp (some hop) = none := by
    by_contra hall
    exact hclient fun text ht hop hmem hnone => hall ⟨text, ht, hop, hmem, hnone⟩
  obtain rfl := Option.mem_def.mp htext
  have hne : appended ≠ [] := by
    obtain ⟨front, hop, back, rfl, -⟩ := h.rightmost
    simp
  refine clientIp_of_no_chain hpeer ?_
  rw [splitOn_forwardedFor (some text) (fun hop hmem => (h.isHop hop hmem).1) hne]
  exact mapM_eq_none (List.mem_append_left appended hmem) hnone

/-- **The header of a peer that is not trusted has no influence.** -/
theorem clientIp_of_not_isTrustedProxy {host : Option (List ℕ)} (forwarded : Option (List ℕ))
    (h : ∀ peer ∈ parsedIp host, isTrustedProxy trusted peer = false) :
    clientIp trusted ⟨host, forwarded⟩ = (parsedIp host).map IpAddress.str := by
  cases hpeer : parsedIp host with
  | none => simp only [clientIp, hpeer]
  | some peer =>
    have huntrusted := h peer hpeer
    cases forwarded with
    | none => simp only [clientIp, hpeer]
    | some forwarded => simp [clientIp, hpeer, huntrusted]

/-- Hops with an untrusted address among them have a rightmost one. -/
theorem exists_appended {appended : List (List ℕ)}
    (hhop : ∀ hop ∈ appended, 44 ∉ hop ∧ parsedIp (some hop) ≠ none)
    (h : ∃ hop ∈ appended, ∃ a, parsedIp (some hop) = some a ∧ isTrustedProxy trusted a = false) :
    ∃ address, Appended trusted appended address := by
  induction appended with
  | nil =>
    obtain ⟨hop, hmem, -⟩ := h
    exact (List.not_mem_nil hmem).elim
  | cons first appended ih =>
    have hrest : ∀ hop ∈ appended, 44 ∉ hop ∧ parsedIp (some hop) ≠ none :=
      fun hop hmem => hhop hop (List.mem_cons_of_mem first hmem)
    by_cases hbehind : ∃ hop ∈ appended, ∃ a, parsedIp (some hop) = some a ∧
        isTrustedProxy trusted a = false
    · obtain ⟨address, -, front, hop, back, rfl, hparsed, huntrusted, hback⟩ := ih hrest hbehind
      exact ⟨address, hhop, first :: front, hop, back, rfl, hparsed, huntrusted, hback⟩
    · obtain ⟨hop, hmem, a, hparsed, huntrusted⟩ := h
      rcases List.mem_cons.mp hmem with rfl | hmem
      · refine ⟨a, hhop, [], hop, appended, rfl, hparsed, huntrusted, fun hop' hmem' b hb => ?_⟩
        by_contra hb'
        exact hbehind ⟨hop', hmem', b, hb, eq_false_of_ne_true hb'⟩
      · exact (hbehind ⟨hop, hmem, a, hparsed, huntrusted⟩).elim

/-- **What the address depends on.** For a trusted peer, on the rightmost untrusted hop that has
been appended, if the text of the client is a list of addresses, and on the peer otherwise; for any
other peer, on the peer. -/
theorem clientIp_forwardedFor (trusted : List (List ℕ)) (host : Option (List ℕ)) :
    (∀ peer, parsedIp host = some peer → isTrustedProxy trusted peer = true →
      ∀ client appended address, Appended trusted appended address →
        (IsWellFormed client →
          clientIp trusted ⟨host, some (forwardedFor client appended)⟩ = some address.str) ∧
        (¬ IsWellFormed client →
          clientIp trusted ⟨host, some (forwardedFor client appended)⟩ = some peer.str)) ∧
    ((∀ peer ∈ parsedIp host, isTrustedProxy trusted peer = false) →
      ∀ forwarded forwarded', clientIp trusted ⟨host, forwarded⟩ =
        clientIp trusted ⟨host, forwarded'⟩) := by
  constructor
  · intro peer hpeer htrusted client appended address h
    cases host with
    | none => cases hpeer
    | some host =>
      exact ⟨clientIp_of_isWellFormed hpeer htrusted h, clientIp_of_not_isWellFormed hpeer h⟩
  · intro h forwarded forwarded'
    rw [clientIp_of_not_isTrustedProxy forwarded h, clientIp_of_not_isTrustedProxy forwarded' h]

/-- One proxy that has appended one hop. -/
theorem appended_singleton {hop : List ℕ} {address : IpAddress} (hcomma : 44 ∉ hop)
    (hparsed : parsedIp (some hop) = some address) (h : isTrustedProxy trusted address = false) :
    Appended trusted [hop] address where
  isHop hop' hmem := by
    rw [List.mem_singleton.mp hmem, hparsed]
    exact ⟨hcomma, Option.some_ne_none _⟩
  rightmost := ⟨[], hop, [], rfl, hparsed, h, fun hop' hmem => (List.not_mem_nil hmem).elim⟩

theorem exists_clientIp_eq : ∃ trusted host client appended address,
    Appended trusted appended address ∧
    clientIp trusted ⟨host, some (forwardedFor client appended)⟩ = some address.str := by
  have happended : Appended ["10.0.0.10".codePoints] ["203.0.113.9".codePoints] (.v4 0xcb007109) :=
    appended_singleton (by decide) (by decide +kernel) (by decide +kernel)
  exact ⟨_, some "10.0.0.10".codePoints, some "198.51.100.7".codePoints, _, _, happended,
    ((clientIp_forwardedFor _ _).1 (.v4 0x0a00000a) (by decide +kernel) (by decide +kernel) _ _ _
      happended).1 (by decide +kernel)⟩

/-- **The client chooses between two addresses.** It gets the one of the proxy if it writes no
address, and its own if it writes nothing. -/
theorem exists_clientIp_ne : ∃ trusted host client appended address,
    (parsedIp host).any (isTrustedProxy trusted) = true ∧ Appended trusted appended address ∧
    clientIp trusted ⟨host, some (forwardedFor client appended)⟩ ≠ some address.str ∧
    clientIp trusted ⟨host, some (forwardedFor none appended)⟩ = some address.str :=
  ⟨["10.0.0.10".codePoints], some "10.0.0.10".codePoints, some "not-an-ip".codePoints,
    [" 203.0.113.9".codePoints], .v4 0xcb007109, by decide +kernel,
    appended_singleton (by decide) (by decide +kernel) (by decide +kernel), by decide +kernel,
    by decide +kernel⟩

end NextBallUp.ClientIp

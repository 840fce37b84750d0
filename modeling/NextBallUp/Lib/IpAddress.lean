import NextBallUp.Lib.Numerals

/-!
# IP addresses

Python's `ipaddress`: how addresses and networks of both versions are read, how addresses are
written, and which addresses a network contains.

## Main definitions

* `IpAddress`, `ipAddress`, `IpAddress.str`: addresses, `ip_address(text)` and `str(address)`
* `IpNetwork`, `ipNetwork`: networks, and `ip_network(text, strict=False)`
* `IpNetwork.contains`: `address in network`
-/

inductive IpAddress
  | v4 (value : BitVec 32)
  | v6 (value : BitVec 128) (scopeId : Option (List ℕ))
  deriving DecidableEq, Repr

inductive IpNetwork
  | v4 (networkAddress netmask : BitVec 32)
  | v6 (networkAddress netmask : BitVec 128)
  deriving DecidableEq, Repr

namespace IpAddress

/-! ### Version 4 -/

/-- `_parse_octet` -/
def parseOctet (octet : List ℕ) : Option ℕ :=
  if DigitTable.isDigits octet = true ∧ octet.length ≤ 3 ∧ (octet = [48] ∨ octet.head? ≠ some 48) ∧
      ofDecimal octet ≤ 255 then
    some (ofDecimal octet)
  else none

/-- `IPv4Address(text)` -/
def parseV4 (text : List ℕ) : Option (BitVec 32) :=
  match (text.splitOn 46).mapM parseOctet with
  | some [a, b, c, d] => some (BitVec.ofNat 32 (((a * 256 + b) * 256 + c) * 256 + d))
  | _ => none

/-! ### Version 6 -/

/-- `_parse_hextet` -/
def parseHextet (hextet : List ℕ) : Option ℕ :=
  if hextet ≠ [] ∧ hextet.length ≤ 4 ∧ hextet.all fun c => (hexValue c).isSome then
    some (ofHexDigits hextet)
  else none

/-- The parts between colons; an address of version 4 at the end counts for two of them. -/
def hextetTexts (text : List ℕ) : Option (List (List ℕ)) :=
  let parts := text.splitOn 58
  if parts.length < 3 then none
  else
    match parts.getLast? with
    | some last =>
      if 46 ∈ last then
        (parseV4 last).map fun v =>
          parts.dropLast ++ [hexDigits 4 (v.toNat / 65536), hexDigits 4 (v.toNat % 65536)]
      else some parts
    | none => none

/-- The places within an address at which nothing stands between two colons. -/
def skipIndices (parts : List (List ℕ)) : List ℕ :=
  (List.range parts.length).filter fun i => 1 ≤ i ∧ i + 1 < parts.length ∧ parts[i]? = some []

/-- The parts before a run of zeros that has been left out, or those after it, from its side. At the
end of an address there may be nothing but the colons. -/
def withoutEnd (side : List (List ℕ)) : Option (List (List ℕ)) :=
  if side.head? = some [] then if side.length = 1 then some [] else none else some side

/-- The hextets of an address, with the zeros that have been left out. -/
def expand (parts : List (List ℕ)) : Option (List (List ℕ)) :=
  if 9 < parts.length then none
  else
    match skipIndices parts with
    | [] => if parts.length = 8 then some parts else none
    | [i] => do
      let high ← withoutEnd (parts.take i)
      let low ← withoutEnd (parts.drop (i + 1)).reverse
      if high.length + low.length < 8 then
        some (high ++ List.replicate (8 - (high.length + low.length)) [48] ++ low.reverse)
      else none
    | _ => none

/-- `IPv6Address._ip_int_from_string` -/
def parseV6 (text : List ℕ) : Option (BitVec 128) := do
  let parts ← hextetTexts text
  let parts ← expand parts
  let hextets ← parts.mapM parseHextet
  some (BitVec.ofNat 128 (hextets.foldl (fun n h => n * 65536 + h) 0))

/-- `_split_scope_id` -/
def splitScopeId (text : List ℕ) : Option (List ℕ × Option (List ℕ)) :=
  match splitFirst 37 text with
  | none => some (text, none)
  | some (addr, scopeId) =>
    if scopeId = [] ∨ 37 ∈ scopeId then none else some (addr, some scopeId)

end IpAddress

open IpAddress

/-- `ip_address(text)`; `none` is a `ValueError`. -/
def ipAddress (text : List ℕ) : Option IpAddress :=
  if 47 ∈ text then none
  else
    match parseV4 text with
    | some value => some (.v4 value)
    | none => do
      let (addr, scopeId) ← splitScopeId text
      let value ← parseV6 addr
      some (.v6 value scopeId)

/-! ### How addresses are written -/

namespace IpAddress

/-- `'%x' % n` for a hextet. -/
def hexText (n : ℕ) : List ℕ :=
  match (hexDigits 4 n).dropWhile (· = 48) with
  | [] => [48]
  | digits => digits

/-- The hextets of an address, the highest first. -/
def hextets (value : BitVec 128) : List ℕ :=
  (List.range 8).map fun i => value.toNat / 65536 ^ (7 - i) % 65536

/-- A run of zeros, where it begins and how long it is. -/
structure Run where
  start : ℕ
  length : ℕ

/-- The loop of `_compress_hextets`: the run that goes on, if there is one, and the best one so far.
-/
def bestRun : ℕ → Run → Run → List ℕ → Run
  | _, _, best, [] => best
  | i, current, best, h :: rest =>
    if h = 0 then
      let current : Run := ⟨if current.length = 0 then i else current.start, current.length + 1⟩
      bestRun (i + 1) current (if best.length < current.length then current else best) rest
    else bestRun (i + 1) ⟨0, 0⟩ best rest

/-- `_compress_hextets` -/
def compressHextets (hextets : List ℕ) : List (List ℕ) :=
  let best := bestRun 0 ⟨0, 0⟩ ⟨0, 0⟩ hextets
  let texts := hextets.map hexText
  if 1 < best.length then
    (if best.start = 0 then [[]] else []) ++ texts.take best.start ++ [[]] ++
      texts.drop (best.start + best.length) ++
      if best.start + best.length = hextets.length then [[]] else []
  else texts

/-- `str(address)` -/
def str : IpAddress → List ℕ
  | .v4 value =>
    [46].intercalate ((List.range 4).map fun i => decimal (value.toNat / 256 ^ (3 - i) % 256))
  | .v6 value scopeId =>
    [58].intercalate (compressHextets (hextets value)) ++
      match scopeId with
      | some scopeId => 37 :: scopeId
      | none => []

end IpAddress

/-! ### Networks -/

/-- The mask of a prefix. -/
def prefixMask (width prefixlen : ℕ) : BitVec width := BitVec.allOnes width <<< (width - prefixlen)

/-- `_prefix_from_prefix_string` -/
def prefixOfText (width : ℕ) (text : List ℕ) : Option ℕ :=
  if DigitTable.isDigits text = true ∧ ofDecimal text ≤ width then some (ofDecimal text) else none

/-- `_prefix_from_ip_string`: the mask itself, or its complement. -/
def prefixOfMask (text : List ℕ) : Option ℕ := do
  let mask ← parseV4 text
  ((List.range 33).find? fun n => prefixMask 32 n = mask).or
    ((List.range 33).find? fun n => prefixMask 32 n = ~~~mask)

/-- `_split_addr_prefix` -/
def splitAddrPrefix (text : List ℕ) : Option (List ℕ × Option (List ℕ)) :=
  match text.splitOn 47 with
  | [addr] => some (addr, none)
  | [addr, mask] => some (addr, some mask)
  | _ => none

/-- `IPv4Network(text, strict=False)` -/
def networkV4 (text : List ℕ) : Option IpNetwork := do
  let (addr, mask) ← splitAddrPrefix text
  let value ← parseV4 addr
  let prefixlen ←
    match mask with
    | none => some 32
    | some mask => (prefixOfText 32 mask).or (prefixOfMask mask)
  some (.v4 (value &&& prefixMask 32 prefixlen) (prefixMask 32 prefixlen))

/-- `IPv6Network(text, strict=False)` -/
def networkV6 (text : List ℕ) : Option IpNetwork := do
  let (addr, mask) ← splitAddrPrefix text
  let (addr, _) ← splitScopeId addr
  let value ← parseV6 addr
  let prefixlen ←
    match mask with
    | none => some 128
    | some mask => prefixOfText 128 mask
  some (.v6 (value &&& prefixMask 128 prefixlen) (prefixMask 128 prefixlen))

/-- `ip_network(text, strict=False)`; `none` is a `ValueError`. -/
def ipNetwork (text : List ℕ) : Option IpNetwork := (networkV4 text).or (networkV6 text)

/-- `address in network` -/
def IpNetwork.contains : IpNetwork → IpAddress → Bool
  | .v4 networkAddress netmask, .v4 value => value &&& netmask = networkAddress
  | .v6 networkAddress netmask, .v6 value _ => value &&& netmask = networkAddress
  | _, _ => false

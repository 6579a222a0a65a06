import Nscp.Net.AllowedHosts

/-!
# The networks a list of sources configures

A source text denotes a network: an address and the number of leading bits a peer has
to share with it.  A list of sources should admit a peer exactly when one of them
denotes a network the peer is in.  The prefix length travels through an
`unsigned int`, so a record is compared on the length modulo `2 ^ 32`: lengths that
large shrink, and lengths of `2 ^ 64` and more stop the rebuild.
-/

namespace Nscp.Net

open Text List BitPrefix

structure Network where
  addr : Address
  bits : ℕ

/-- Sharing the leading bits; a peer of the other family is compared only as the IPv4
address an IPv6 one maps. -/
def Network.Contains (net : Network) (peer : Address) : Prop :=
  match net.addr, peer with
  | .v4 a, .v4 b => AgreeOn net.bits a b
  | .v6 a, .v6 b => AgreeOn net.bits a b
  | .v4 a, .v6 b => isV4Mapped b = true ∧ AgreeOn net.bits a (unmapped b)
  | .v6 _, .v4 _ => False

instance (net : Network) (peer : Address) : Decidable (net.Contains peer) :=
  match net, peer with
  | ⟨.v4 a, n⟩, .v4 b => inferInstanceAs (Decidable (AgreeOn n a b))
  | ⟨.v6 a, n⟩, .v6 b => inferInstanceAs (Decidable (AgreeOn n a b))
  | ⟨.v4 a, n⟩, .v6 b =>
    inferInstanceAs (Decidable (isV4Mapped b = true ∧ AgreeOn n a (unmapped b)))
  | ⟨.v6 _, _⟩, .v4 _ => inferInstanceAs (Decidable False)

/-- The same address with the length an `unsigned int` keeps. -/
def Network.truncated (net : Network) : Network := ⟨net.addr, net.bits % 2 ^ 32⟩

variable {net : Network}

theorem Network.truncated_eq_self (h : net.bits < 2 ^ 32) : net.truncated = net := by
  rw [Network.truncated, Nat.mod_eq_of_lt h]

theorem Network.Contains.truncated {peer : Address} (h : net.Contains peer) :
    net.truncated.Contains peer := by
  have hle : ∀ w, min (net.bits % 2 ^ 32) (8 * w) ≤ net.bits := fun w =>
    le_trans (min_le_left _ _) (Nat.mod_le _ _)
  obtain ⟨addr, bits⟩ := net
  cases addr with
  | v4 a =>
    cases peer with
    | v4 b => exact AgreeOn.mono h (hle 4)
    | v6 b => exact ⟨h.1, AgreeOn.mono h.2 (hle 4)⟩
  | v6 a =>
    cases peer with
    | v4 b => exact h
    | v6 b => exact AgreeOn.mono h (hle 16)

namespace AllowedHosts

variable (env : Sockets) {mask part : List Char} (entriesV4 : List (HostRecord 4))
  (entriesV6 : List (HostRecord 16)) {width n significant w : ℕ}

/-! ## What a source text means -/

/-- The prefix length behind an address: the whole address, or a decimal number. -/
inductive Length (width : ℕ) : List Char → ℕ → Prop
  | whole : Length width [] width
  | given {digits : List Char} : digits ≠ [] → (∀ c ∈ digits, c.isDigit = true) →
      Length width ('/' :: digits) (Nat.ofDigitChars 10 digits 0)

structure IsOctet (part : List Char) : Prop where
  nonempty : part ≠ []
  short : part.length ≤ 3
  digits : ∀ c ∈ part, c.isDigit = true
  small : Nat.ofDigitChars 10 part 0 ≤ 255

/-- The network a source denotes: a numeric address with an optional length, or leading
octets with a star for some or all of the others. -/
inductive Denotes : List Char → Network → Prop
  | address {text mask : List Char} {a : Address} {n : ℕ} : '/' ∉ text → '*' ∉ text →
      isNumeric text = true → env.makeAddress text = .ok a → Length a.width mask n →
      Denotes (text ++ mask) ⟨a, n⟩
  | wildcard {text : List Char} {octets : List (List Char)} {stars : ℕ} {a : Address} :
      '/' ∉ text → getlines '.' text = octets ++ replicate stars ['*'] →
      0 < stars → octets.length + stars ≤ 4 → (∀ octet ∈ octets, IsOctet octet) →
      env.makeAddress
        (['.'].intercalate (octets ++ replicate (4 - octets.length) ['0'])) = .ok a →
      Denotes text ⟨a, 8 * octets.length⟩

/-- A source whose address part is numeric, a range, or of no use, with or without a
decimal length behind it. -/
inductive Numeric : List Char → Prop
  | intro {text mask : List Char} : '/' ∉ text → (∃ width n, Length width mask n) →
      (text = [] ∨ isNumeric text = true ∨ '*' ∈ text ∨ ∀ as, env.resolve text = .ok as → as = []) →
      Numeric (text ++ mask)

/-- Some source denotes a network the peer is in. -/
def Configured (sources : List (List Char)) (peer : Address) : Prop :=
  ∃ record ∈ sources, ∃ net, Denotes env record net ∧ net.Contains peer

/-! ## Masks -/

theorem getMsbD_partial : ∀ r < 8, ∀ k < 8,
    (UInt8.ofNat (0xff - 0xff >>> r)).toBitVec.getMsbD k = decide (k < r) := by
  decide

theorem bit_maskOf (j : Fin (8 * w)) : bit (maskOf w n) j = decide ((j : ℕ) < n) := by
  have hget : (maskOf w n).get ⟨j / 8, by omega⟩ = if (j : ℕ) / 8 < n / 8 then 0xff
      else if (j : ℕ) / 8 = n / 8 then UInt8.ofNat (0xff - 0xff >>> (n % 8)) else 0 := by
    simp [maskOf, Vector.get_eq_getElem]
  rw [bit, hget]
  have hj : (j : ℕ) % 8 < 8 := by omega
  rcases lt_trichotomy ((j : ℕ) / 8) (n / 8) with hlt | heq | hgt
  · rw [if_pos hlt, decide_eq_true (by omega)]
    generalize (j : ℕ) % 8 = k at hj
    revert k
    decide
  · rw [if_neg (by omega), if_pos heq, getMsbD_partial _ (by omega) _ hj, decide_eq_decide]
    omega
  · rw [if_neg (by omega), if_neg (by omega), decide_eq_false (by omega)]
    simp

theorem matchHost_maskOf (n : ℕ) (allowed remote : Bytes w) :
    matchHost allowed (maskOf w n) remote = true ↔ AgreeOn n allowed remote := by
  rw [matchHost, decide_eq_true_eq]
  exact masked_eq_iff_agreeOn bit_maskOf allowed remote

theorem Length.extractMask (h : Length width mask n) (hwidth : width < 2 ^ 64) :
    extractMask mask width = if n < 2 ^ 64 then some (n % 2 ^ 32) else none := by
  cases h with
  | whole => rw [if_pos hwidth]; rfl
  | @given digits hne hdigits =>
    have hdrop : (('/' :: digits).dropWhile fun c => !c.isDigit) = digits := by
      obtain ⟨c, rest, rfl⟩ := exists_cons_of_ne_nil hne
      have hc : c.isDigit = true := hdigits c mem_cons_self
      rw [dropWhile_cons_of_pos (by decide), dropWhile_cons_of_neg (by simp [hc])]
    have htake : digits.takeWhile Char.isDigit = digits :=
      takeWhile_eq_self_iff.mpr hdigits
    obtain ⟨c, rest, rfl⟩ := exists_cons_of_ne_nil hne
    simp only [AllowedHosts.extractMask, hdrop, htake, lexicalCast]
    split <;> rfl

/-! ## Records -/

def Lists.Admits (l : Lists) (peer : Address) : Prop :=
  admits l.entriesV4 l.entriesV6 peer = true

theorem admits_v4 (remote : Bytes 4) :
    admits entriesV4 entriesV6 (.v4 remote) = isAllowedV4 entriesV4 remote := by
  rw [admits]
  cases entriesV4 with
  | nil => simp [isAllowedV4]
  | cons r rs => simp

theorem admits_v6 (remote : Bytes 16) :
    admits entriesV4 entriesV6 (.v6 remote) = (isAllowedV6 entriesV6 remote ||
      isV4Mapped remote && isAllowedV4 entriesV4 (unmapped remote)) := by
  rw [admits]
  cases hempty : entriesV4.isEmpty && entriesV6.isEmpty with
  | true =>
    rw [Bool.and_eq_true, List.isEmpty_iff, List.isEmpty_iff] at hempty
    simp [hempty.1, hempty.2, isAllowedV4, isAllowedV6]
  | false => cases hmapped : isV4Mapped remote <;> simp

theorem not_admits_nil (errors : List (List Char)) (peer : Address) :
    ¬ Lists.Admits ⟨[], [], errors⟩ peer := by
  cases peer <;> simp [Lists.Admits, admits]

variable {a : Address}

/-- A record admits, besides what was admitted before, the network of its address and
the length read from the mask text. -/
theorem addAddress_of_extractMask (h : extractMask mask a.width = some n) (record : List Char)
    (l : Lists) : ∃ l', addAddress record a mask l = some l' ∧
      ∀ peer, l'.Admits peer ↔ l.Admits peer ∨ Network.Contains ⟨a, n⟩ peer := by
  cases a with
  | v4 a =>
    have hmask : calculateMask 4 mask = some (maskOf 4 n) := by
      rw [calculateMask]
      exact congrArg (Option.map (maskOf 4)) h
    refine ⟨_, by rw [addAddress, hmask, Option.map_some], fun peer => ?_⟩
    cases peer with
    | v4 b => simp [Lists.Admits, admits_v4, isAllowedV4, matchHost_maskOf, Network.Contains]
    | v6 b =>
      simp only [Lists.Admits, admits_v6, isAllowedV4, any_append, any_cons,
        any_nil, Bool.or_false, Bool.or_eq_true, Bool.and_eq_true, matchHost_maskOf,
        Network.Contains]
      tauto
  | v6 a =>
    have hmask : calculateMask 16 mask = some (maskOf 16 n) := by
      rw [calculateMask]
      exact congrArg (Option.map (maskOf 16)) h
    refine ⟨_, by rw [addAddress, hmask, Option.map_some], fun peer => ?_⟩
    cases peer with
    | v4 b => simp [Lists.Admits, admits_v4, Network.Contains]
    | v6 b =>
      simp only [Lists.Admits, admits_v6, isAllowedV6, any_append, any_cons,
        any_nil, Bool.or_false, Bool.or_eq_true, matchHost_maskOf, Network.Contains]
      tauto

theorem addAddress_of_extractMask_none (h : extractMask mask a.width = none) (record : List Char)
    (l : Lists) : addAddress record a mask l = none := by
  cases a with
  | v4 a =>
    have hmask : calculateMask 4 mask = none := congrArg (Option.map (maskOf 4)) h
    rw [addAddress, hmask, Option.map_none]
  | v6 a =>
    have hmask : calculateMask 16 mask = none := congrArg (Option.map (maskOf 16)) h
    rw [addAddress, hmask, Option.map_none]

/-- What reading a source does to the records: it adds its network, or throws. -/
def Reads (l : Lists) (net : Network) (result : Option Lists) : Prop :=
  if net.bits < 2 ^ 64 then
    ∃ l', result = some l' ∧ ∀ peer, l'.Admits peer ↔ l.Admits peer ∨ net.truncated.Contains peer
  else result = none

theorem addAddress_reads (h : Length a.width mask n) (record : List Char) (l : Lists) :
    Reads l ⟨a, n⟩ (addAddress record a mask l) := by
  have hwidth : a.width < 2 ^ 64 := by cases a <;> norm_num [Address.width]
  have hmask := h.extractMask hwidth
  rw [Reads]
  split
  · rename_i hn
    rw [if_pos hn] at hmask
    exact addAddress_of_extractMask hmask record l
  · rename_i hn
    rw [if_neg hn] at hmask
    exact addAddress_of_extractMask_none hmask record l

/-! ## The range syntax -/

theorem scanParts_replicate (stars significant : ℕ) (seenStar : Bool) :
    scanParts (replicate stars ['*']) seenStar significant =
      some (significant, seenStar || decide (0 < stars)) := by
  induction stars generalizing seenStar with
  | zero => simp [scanParts]
  | succ stars ih => simp [replicate_succ, scanParts, ih]

theorem IsOctet.ne_star (h : IsOctet part) : part ≠ ['*'] := by
  rintro rfl
  exact absurd (h.digits '*' mem_cons_self) (by decide)

variable {octets : List (List Char)} {text result mask : List Char}

theorem scanParts_octets (h : ∀ octet ∈ octets, IsOctet octet) (parts : List (List Char))
    (significant : ℕ) :
    scanParts (octets ++ parts) false significant =
      scanParts parts false (significant + octets.length) := by
  induction octets generalizing significant with
  | nil => rfl
  | cons octet octets ih =>
    have hoctet := h octet mem_cons_self
    have hform : ¬ (octet.isEmpty = true ∨ 3 < octet.length ∨ ¬ octet.all Char.isDigit = true) := by
      rintro (hempty | hlong | hdigits)
      · exact hoctet.nonempty (isEmpty_iff.mp hempty)
      · exact absurd hoctet.short (by omega)
      · exact hdigits (all_eq_true.mpr hoctet.digits)
    rw [cons_append, scanParts, if_neg hoctet.ne_star, if_neg (by simp), if_neg hform,
      if_neg (not_lt.mpr hoctet.small), ih fun o ho => h o (mem_cons_of_mem octet ho)]
    congr 1
    rw [length_cons]
    omega

section

variable {parts : List (List Char)}

theorem scanParts_true {r : ℕ × Bool} (h : scanParts parts true significant = some r) :
    parts = replicate parts.length ['*'] := by
  induction parts with
  | nil => rfl
  | cons part parts ih =>
    rw [scanParts] at h
    split at h
    · rename_i hpart
      rw [length_cons, replicate_succ, hpart, ← ih h]
    · cases h

theorem scanParts_false {k : ℕ} (h : scanParts parts false significant = some (k, true)) :
    ∃ octets stars, parts = octets ++ replicate stars ['*'] ∧ 0 < stars ∧
      (∀ octet ∈ octets, IsOctet octet) := by
  induction parts generalizing significant with
  | nil => cases h
  | cons part parts ih =>
    rw [scanParts] at h
    split at h
    · rename_i hpart
      refine ⟨[], parts.length + 1, ?_, by omega, by simp⟩
      rw [nil_append, replicate_succ, hpart, ← scanParts_true h]
    · rw [if_neg (by simp)] at h
      split at h
      · cases h
      · rename_i hform
        split at h
        · cases h
        · rename_i hsmall
          obtain ⟨octets, stars, rfl, hstars, hoctets⟩ := ih h
          simp only [not_or, not_not, List.isEmpty_iff, not_lt] at hform
          have hpart : IsOctet part :=
            ⟨hform.1, hform.2.1, List.all_eq_true.mp hform.2.2, not_lt.mp hsmall⟩
          refine ⟨part :: octets, stars, rfl, hstars, fun o ho => ?_⟩
          rcases mem_cons.mp ho with rfl | ho
          · exact hpart
          · exact hoctets o ho

theorem foldl_appendPart (h : ∀ part ∈ parts, part ≠ []) (hresult : result ≠ []) :
    parts.foldl appendPart result = result ++ parts.flatMap ('.' :: ·) := by
  induction parts generalizing result with
  | nil => simp
  | cons part parts ih =>
    have hstep : appendPart result part = result ++ '.' :: part := by
      rw [appendPart, if_neg (by simpa using hresult)]
      simp
    rw [foldl_cons, hstep, ih (fun p hp => h p (mem_cons_of_mem part hp)) (by simp)]
    simp

theorem foldl_appendPart_nil (h : ∀ part ∈ parts, part ≠ []) :
    parts.foldl appendPart [] = ['.'].intercalate parts := by
  cases parts with
  | nil => rfl
  | cons part parts =>
    have hpart : part ≠ [] := h part mem_cons_self
    rw [foldl_cons, show appendPart [] part = part from rfl,
      foldl_appendPart (fun p hp => h p (mem_cons_of_mem part hp)) hpart,
      intercalate_cons_eq_flatMap]

end

theorem expandWildcardV4_of_octets {stars : ℕ}
    (htext : getlines '.' text = octets ++ replicate stars ['*']) (hstars : 0 < stars)
    (hlength : octets.length + stars ≤ 4) (hoctets : ∀ octet ∈ octets, IsOctet octet) :
    expandWildcardV4 text = some (['.'].intercalate (octets ++ replicate (4 - octets.length) ['0']),
        '/' :: Nat.toDigits 10 (octets.length * 8)) := by
  have hcount : ¬ ((octets ++ replicate stars ['*']).isEmpty = true ∨
      4 < (octets ++ replicate stars ['*']).length) := by
    rw [List.isEmpty_iff, List.length_append, List.length_replicate]
    rintro (hnil | hlong)
    · have := congrArg length hnil
      simp only [length_append, length_replicate, length_nil] at this
      omega
    · omega
  have hscan : scanParts (octets ++ replicate stars ['*']) false 0 =
      some (octets.length, true) := by
    rw [scanParts_octets hoctets, scanParts_replicate]
    simp [hstars]
  have hparts : ∀ part ∈ octets ++ replicate (4 - octets.length) ['0'], part ≠ [] := by
    intro part hpart
    rcases mem_append.mp hpart with hpart | hpart
    · exact (hoctets part hpart).nonempty
    · rw [eq_of_mem_replicate hpart]
      simp
  simp only [expandWildcardV4, htext, if_neg hcount, hscan, take_left']
  rw [← foldl_append, foldl_appendPart_nil hparts]

theorem expandWildcardV4_some {r : List Char × List Char} (h : expandWildcardV4 text = some r) :
    ∃ octets stars, getlines '.' text = octets ++ replicate stars ['*'] ∧ 0 < stars ∧
      octets.length + stars ≤ 4 ∧ ∀ octet ∈ octets, IsOctet octet := by
  simp only [expandWildcardV4] at h
  split at h
  · cases h
  · rename_i hcount
    split at h
    · cases h
    · cases h
    · rename_i hscan
      obtain ⟨octets, stars, hparts, hstars, hoctets⟩ := scanParts_false hscan
      rw [not_or, hparts, length_append, length_replicate] at hcount
      exact ⟨octets, stars, hparts, hstars, by omega, hoctets⟩

/-! ## One source -/

theorem takeWhile_source (htext : '/' ∉ text) (hmask : Length width mask n) :
    (text ++ mask).takeWhile (· ≠ '/') = text := by
  cases hmask with
  | whole =>
    rw [append_nil, takeWhile_eq_self_iff]
    intro c hc
    simpa using fun heq : c = '/' => htext (heq ▸ hc)
  | given _ _ => exact takeWhile_append_cons htext _

theorem dropWhile_source (htext : '/' ∉ text) (hmask : Length width mask n) :
    (text ++ mask).dropWhile (· ≠ '/') = mask := by
  have happend := takeWhile_append_dropWhile (l := text ++ mask) (p := (· ≠ '/'))
  rw [takeWhile_source htext hmask] at happend
  exact append_cancel_left happend

theorem not_isEmpty_of_isNumeric (h : isNumeric text = true) : ¬ text.isEmpty = true := by
  rw [List.isEmpty_iff]
  rintro rfl
  cases h

variable {env}

variable {net : Network} {record : List Char}

theorem readRecord_of_denotes (h : Denotes env record net) (l : Lists) :
    Reads l net (readRecord env record l) := by
  cases h with
  | @address text mask a n hslash hstar hnumeric haddress hlength =>
    simp only [readRecord, takeWhile_source hslash hlength, dropWhile_source hslash hlength]
    have hwild : ¬ isWildcard text = true := by simpa [isWildcard] using hstar
    rw [if_neg (not_isEmpty_of_isNumeric hnumeric), if_neg hwild, if_pos hnumeric, addNumeric,
      haddress]
    exact addAddress_reads hlength _ l
  | @wildcard _ octets stars a hslash htext hstars hcount hoctets haddress =>
    have hwhole : Length 0 [] 0 := .whole
    have htake := takeWhile_source hslash hwhole
    have hdrop := dropWhile_source hslash hwhole
    rw [append_nil] at htake hdrop
    have hstar : '*' ∈ record := by
      have hmem : ['*'] ∈ getlines '.' record := by
        rw [htext, mem_append, mem_replicate]
        exact .inr ⟨by omega, rfl⟩
      exact mem_of_mem_getlines hmem mem_cons_self
    have hempty : ¬ record.isEmpty = true := by
      rw [List.isEmpty_iff]
      exact ne_nil_of_mem hstar
    have hwild : isWildcard record = true := by simpa [isWildcard] using hstar
    simp only [readRecord, htake, hdrop]
    rw [if_neg hempty, if_pos hwild, if_neg (by simp),
      expandWildcardV4_of_octets htext hstars hcount hoctets]
    simp only [addNumeric, haddress]
    have hlength : Length a.width ('/' :: Nat.toDigits 10 (octets.length * 8))
        (Nat.ofDigitChars 10 (Nat.toDigits 10 (octets.length * 8)) 0) :=
      .given Nat.toDigits_ne_nil fun c hc => isDigit_of_mem_toDigits hc
    rw [Nat.ofDigitChars_ten_toDigits] at hlength
    rw [Nat.mul_comm 8]
    exact addAddress_reads hlength record l

theorem addHost_of_unresolved (h : ∀ as, env.resolve text = .ok as → as = [])
    (record mask : List Char) (l : Lists) (peer : Address) :
    (addHost env record text mask l).Admits peer ↔ l.Admits peer := by
  rw [addHost]
  rcases hresolve : env.resolve text with _ | as
  · exact Iff.rfl
  rw [h as hresolve]
  exact Iff.rfl

theorem addNumeric_of_error (h : ∀ a, env.makeAddress text ≠ .ok a) (record mask : List Char)
    (l : Lists) :
    ∃ l', addNumeric env record text mask l = some l' ∧ ∀ peer, l'.Admits peer ↔ l.Admits peer := by
  rw [addNumeric]
  cases haddress : env.makeAddress text with
  | error message => exact ⟨_, rfl, fun peer => Iff.rfl⟩
  | ok a => exact absurd haddress (h a)

theorem readRecord_of_not_denotes (hnumeric : Numeric env record)
    (h : ∀ net, ¬ Denotes env record net) (l : Lists) :
    ∃ l', readRecord env record l = some l' ∧ ∀ peer, l'.Admits peer ↔ l.Admits peer := by
  obtain ⟨hslash, ⟨width, n, hlength⟩, hkind⟩ := hnumeric
  rename_i text mask
  simp only [readRecord, takeWhile_source hslash hlength, dropWhile_source hslash hlength]
  split_ifs with hempty hwild hmask hnum
  · exact ⟨l, rfl, fun peer => Iff.rfl⟩
  · exact ⟨_, rfl, fun peer => Iff.rfl⟩
  · rcases hexpand : expandWildcardV4 text with _ | r
    · exact ⟨_, rfl, fun peer => Iff.rfl⟩
    obtain ⟨octets, stars, htext, hstars, hcount, hoctets⟩ := expandWildcardV4_some hexpand
    rw [expandWildcardV4_of_octets htext hstars hcount hoctets] at hexpand
    cases hexpand
    refine addNumeric_of_error (fun a ha => ?_) _ _ l
    have hnil : mask = [] := by simpa using hmask
    exact h _ (by
      rw [hnil, append_nil]
      exact Denotes.wildcard hslash htext hstars hcount hoctets ha)
  · refine addNumeric_of_error (fun a ha => ?_) _ _ l
    have hstar : '*' ∉ text := by simpa [isWildcard] using hwild
    cases hlength with
    | whole => exact h _ (.address hslash hstar hnum ha .whole)
    | given hne hdigits => exact h _ (.address hslash hstar hnum ha (.given hne hdigits))
  · have hunresolved : ∀ as, env.resolve text = .ok as → as = [] := by
      rcases hkind with hnil | hnum' | hstar | hunresolved
      · exact absurd (isEmpty_iff.mpr hnil) hempty
      · exact absurd hnum' hnum
      · exact absurd (by simpa [isWildcard] using hstar) hwild
      · exact hunresolved
    exact ⟨_, rfl, addHost_of_unresolved hunresolved _ mask l⟩

/-! ## The whole list -/

def Compared (env : Sockets) (sources : List (List Char)) (peer : Address) : Prop :=
  ∃ record ∈ sources, ∃ net, Denotes env record net ∧ net.truncated.Contains peer

/-- Every length fits the number type it is read into. -/
def Readable (env : Sockets) (sources : List (List Char)) : Prop :=
  ∀ record ∈ sources, ∀ net, Denotes env record net → net.bits < 2 ^ 64

variable {peer : Address} {records sources : List (List Char)}

theorem compared_cons : Compared env (record :: records) peer ↔
      (∃ net, Denotes env record net ∧ net.truncated.Contains peer) ∨
        Compared env records peer := by
  simp [Compared]

theorem readable_cons : Readable env (record :: records) ↔
      (∀ net, Denotes env record net → net.bits < 2 ^ 64) ∧ Readable env records := by
  simp [Readable]

theorem readRecord_step (hnumeric : Numeric env record)
    (hreadable : ∀ net, Denotes env record net → net.bits < 2 ^ 64) (l : Lists) :
    ∃ l', readRecord env record l = some l' ∧ ∀ peer, l'.Admits peer ↔
      l.Admits peer ∨ ∃ net, Denotes env record net ∧ net.truncated.Contains peer := by
  by_cases hdenotes : ∃ net, Denotes env record net
  · obtain ⟨net, hnet⟩ := hdenotes
    have hreads := readRecord_of_denotes hnet l
    rw [Reads, if_pos (hreadable net hnet)] at hreads
    obtain ⟨l', hl', hadmits⟩ := hreads
    refine ⟨l', hl', fun peer => ⟨fun h => ?_, fun h => ?_⟩⟩
    · exact ((hadmits peer).mp h).imp_right fun hcontains => ⟨net, hnet, hcontains⟩
    · rcases h with h | ⟨net', hnet', hcontains⟩
      · exact (hadmits peer).mpr (.inl h)
      · have hreads' := readRecord_of_denotes hnet' l
        rw [Reads, if_pos (hreadable net' hnet'), hl'] at hreads'
        obtain ⟨l'', hl'', hadmits'⟩ := hreads'
        cases hl''
        exact (hadmits' peer).mpr (.inr hcontains)
  · push Not at hdenotes
    obtain ⟨l', hl', hadmits⟩ := readRecord_of_not_denotes hnumeric hdenotes l
    refine ⟨l', hl', fun peer => ?_⟩
    rw [hadmits peer]
    exact ⟨.inl, fun h => h.resolve_right fun ⟨net, hnet, _⟩ => hdenotes net hnet⟩

/-- With readable lengths the loop runs to its end and the records admit the networks
of all sources. -/
theorem readRecords_of_readable (hnumeric : ∀ record ∈ records, Numeric env record)
    (hreadable : Readable env records) (l : Lists) : ∃ l', readRecords env records l = (l', true) ∧
      ∀ peer, l'.Admits peer ↔ l.Admits peer ∨ Compared env records peer := by
  induction records generalizing l with
  | nil => exact ⟨l, rfl, fun peer => by simp [Compared]⟩
  | cons record records ih =>
    rw [readable_cons] at hreadable
    obtain ⟨l₁, hl₁, hadmits₁⟩ :=
      readRecord_step (hnumeric record mem_cons_self) hreadable.1 l
    obtain ⟨l₂, hl₂, hadmits₂⟩ :=
      ih (fun r hr => hnumeric r (mem_cons_of_mem record hr)) hreadable.2 l₁
    refine ⟨l₂, by rw [readRecords, hl₁]; exact hl₂, fun peer => ?_⟩
    rw [hadmits₂ peer, hadmits₁ peer, compared_cons, or_assoc]

theorem readRecords_returned (hnumeric : ∀ record ∈ records, Numeric env record) (l : Lists) :
    (readRecords env records l).2 = true ↔ Readable env records := by
  constructor
  · intro hreturned
    induction records generalizing l with
    | nil => intro record hrecord; cases hrecord
    | cons record records ih =>
      rw [readRecords] at hreturned
      rcases hread : readRecord env record l with _ | l'
      · rw [hread] at hreturned; cases hreturned
      rw [hread] at hreturned
      refine readable_cons.mpr ⟨fun net hnet => ?_, ih
        (fun r hr => hnumeric r (mem_cons_of_mem record hr)) l' hreturned⟩
      by_contra hlarge
      have hreads := readRecord_of_denotes hnet l
      rw [Reads, if_neg hlarge, hread] at hreads
      cases hreads
  · intro hreadable
    obtain ⟨l', hl', -⟩ := readRecords_of_readable hnumeric hreadable l
    rw [hl']

variable {m : Manager}

section

variable (hnumeric : ∀ record ∈ m.sources, Numeric env record)
include hnumeric

theorem refresh_returned (errors : List (List Char)) :
    (refresh env m errors).2.2 = true ↔ Readable env m.sources :=
  readRecords_returned hnumeric _

theorem admits_refresh (hreadable : Readable env m.sources) (errors : List (List Char))
    (peer : Address) :
    admits (refresh env m errors).1.entriesV4 (refresh env m errors).1.entriesV6 peer = true ↔
      Compared env m.sources peer := by
  obtain ⟨l', hl', hadmits⟩ := readRecords_of_readable hnumeric hreadable ⟨[], [], errors⟩
  have hrefresh : (refresh env m errors).1 =
      { m with entriesV4 := l'.entriesV4, entriesV6 := l'.entriesV6 } := by
    rw [refresh, hl']
  rw [hrefresh]
  exact (hadmits peer).trans (or_iff_right (not_admits_nil errors peer))

theorem isAllowed_refresh (hreadable : Readable env m.sources) (errors errors' : List (List Char))
    (peer : Address) :
    (isAllowed env (refresh env m errors).1 peer errors').1 = some true ↔
      Compared env m.sources peer := by
  rw [isAllowed]
  split
  · rw [Option.some.injEq]
    exact admits_refresh hnumeric hreadable errors peer
  · have hreturned := (refresh_returned (m := (refresh env m errors).1) hnumeric errors').mpr
      hreadable
    have hadmits := admits_refresh (m := (refresh env m errors).1) hnumeric hreadable errors' peer
    generalize refresh env (refresh env m errors).1 errors' = r at hreturned hadmits
    obtain ⟨m', errors'', returned⟩ := r
    subst hreturned
    rw [Option.some.injEq]
    exact hadmits

end

theorem Configured.compared (h : Configured env sources peer) : Compared env sources peer := by
  obtain ⟨record, hrecord, net, hnet, hcontains⟩ := h
  exact ⟨record, hrecord, net, hnet, hcontains.truncated⟩

/-- A source without a star: its address is what is read before the slash and its length
what is read behind it. -/
theorem Denotes.parts (h : Denotes env record net) (hstar : '*' ∉ record) :
    env.makeAddress (record.takeWhile (· ≠ '/')) = .ok net.addr ∧
      Length net.addr.width (record.dropWhile (· ≠ '/')) net.bits := by
  cases h with
  | address hslash _ _ haddress hlength =>
    rw [takeWhile_source hslash hlength, dropWhile_source hslash hlength]
    exact ⟨haddress, hlength⟩
  | @wildcard _ octets stars a _ htext hstars _ _ _ =>
    have hmem : ['*'] ∈ getlines '.' record := by
      rw [htext, mem_append, mem_replicate]
      exact .inr ⟨by omega, rfl⟩
    exact absurd (mem_of_mem_getlines hmem mem_cons_self) hstar

theorem Denotes.bits_le (h : Denotes env record net) {b : ℕ} (hb : 128 ≤ b)
    (hrecord : Nat.ofDigitChars 10 (record.dropWhile (· ≠ '/')).tail 0 ≤ b) : net.bits ≤ b := by
  cases h with
  | @address text mask a n hslash _ _ _ hlength =>
    rw [dropWhile_source hslash hlength] at hrecord
    cases hlength with
    | whole =>
      have hwidth : a.width ≤ 128 := by cases a <;> simp [Address.width]
      exact hwidth.trans hb
    | given => exact hrecord
  | wildcard _ _ _ hcount _ _ =>
    show 8 * _ ≤ b
    omega

/-- A rebuilt list of numeric sources admits exactly the configured networks if and only
if every length can be read and every network stays a configured one when its length is
cut to an `unsigned int`.  Both hold when all lengths are below `2 ^ 32`. -/
theorem isAllowed_refresh_iff (env : Sockets) (m : Manager) (errors errors' : List (List Char))
    (hnumeric : ∀ record ∈ m.sources, Numeric env record) :
    ((refresh env m errors).2.2 = true ∧ ∀ peer,
      (isAllowed env (refresh env m errors).1 peer errors').1 = some true ↔
        Configured env m.sources peer) ↔
    ∀ record ∈ m.sources, ∀ net, Denotes env record net →
      net.bits < 2 ^ 64 ∧ ∀ peer, net.truncated.Contains peer → Configured env m.sources peer := by
  rw [refresh_returned hnumeric]
  constructor
  · rintro ⟨hreadable, hallowed⟩ record hrecord net hnet
    refine ⟨hreadable record hrecord net hnet, fun peer hcontains => ?_⟩
    rw [← hallowed peer, isAllowed_refresh hnumeric hreadable]
    exact ⟨record, hrecord, net, hnet, hcontains⟩
  · intro h
    have hreadable : Readable env m.sources :=
      fun record hrecord net hnet => (h record hrecord net hnet).1
    refine ⟨hreadable, fun peer => ?_⟩
    rw [isAllowed_refresh hnumeric hreadable]
    refine ⟨fun ⟨record, hrecord, net, hnet, hcontains⟩ => ?_, Configured.compared⟩
    exact (h record hrecord net hnet).2 peer hcontains

def dottedQuads : Sockets where
  makeAddress text :=
    match (getlines '.' text).map fun part => Nat.ofDigitChars 10 part 0 with
    | [a, b, c, d] => .ok (.v4 #v[.ofNat a, .ofNat b, .ofNat c, .ofNat d])
    | _ => .error "Invalid argument".toList
  resolve _ := .error "Host not found".toList

/-- A network and a range, as the documentation writes them. -/
theorem isAllowed_refresh_documented : let m := setSource {} "10.0.0.0/8, 192.168.1.*".toList
    (refresh dottedQuads m []).2.2 = true ∧ ∀ peer,
      (isAllowed dottedQuads (refresh dottedQuads m []).1 peer []).1 = some true ↔
        Configured dottedQuads m.sources peer := by
  have hsources : (setSource {} "10.0.0.0/8, 192.168.1.*".toList).sources =
      ["10.0.0.0/8".toList, "192.168.1.*".toList] := by decide +kernel
  refine (isAllowed_refresh_iff dottedQuads _ [] [] ?_).mpr ?_
  · rw [hsources, forall_mem_cons, forall_mem_singleton]
    constructor
    · show Numeric dottedQuads ("10.0.0.0".toList ++ ['/', '8'])
      have hdigits : ∀ c ∈ ['8'], c.isDigit = true := forall_mem_singleton.mpr rfl
      exact .intro (by decide) ⟨32, _, .given (by decide) hdigits⟩ (.inr (.inl (by decide)))
    · show Numeric dottedQuads ("192.168.1.*".toList ++ [])
      have hstar : '*' ∈ "192.168.1.*".toList := by simp
      exact .intro (by decide) ⟨0, 0, .whole⟩ (.inr (.inr (.inl hstar)))
  · intro record hrecord net hnet
    have hbits : net.bits ≤ 128 := by
      rw [hsources] at hrecord
      refine hnet.bits_le le_rfl ?_
      rcases mem_cons.mp hrecord with rfl | hrecord
      · decide
      · rw [mem_singleton.mp hrecord]
        decide
    refine ⟨by omega, fun peer hcontains => ⟨record, hrecord, net, hnet, ?_⟩⟩
    rwa [Network.truncated_eq_self (by omega)] at hcontains

/-- The length `2 ^ 32` is read as zero and opens a single host's record to everyone. -/
theorem isAllowed_refresh_widened : let m := setSource {} "10.0.0.1/4294967296".toList
    let peer := Address.v4 #v[8, 8, 8, 8]
    (refresh dottedQuads m []).2.2 = true ∧
      (isAllowed dottedQuads (refresh dottedQuads m []).1 peer []).1 = some true ∧
        ¬ Configured dottedQuads m.sources peer := by
  refine ⟨by decide +kernel, by decide +kernel, ?_⟩
  have hsources : (setSource {} "10.0.0.1/4294967296".toList).sources =
      ["10.0.0.1/4294967296".toList] := by decide
  rintro ⟨record, hrecord, ⟨addr, bits⟩, hnet, hcontains⟩
  rw [hsources, mem_singleton] at hrecord
  subst hrecord
  obtain ⟨haddress, hlength⟩ := hnet.parts (by decide)
  have hquad : dottedQuads.makeAddress
      ("10.0.0.1/4294967296".toList.takeWhile (· ≠ '/')) = .ok (.v4 #v[10, 0, 0, 1]) := by
    rfl
  rw [hquad] at haddress
  cases haddress
  have hbits : bits = 4294967296 := by
    have hmask : "10.0.0.1/4294967296".toList.dropWhile (· ≠ '/') = "/4294967296".toList := by
      decide
    rw [hmask] at hlength
    cases hlength
    decide
  subst hbits
  have hbit := hcontains 6 (by decide)
  revert hbit
  decide

end AllowedHosts
end Nscp.Net

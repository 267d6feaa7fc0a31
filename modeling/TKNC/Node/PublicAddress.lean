import Mathlib.Data.List.Basic
import Mathlib.Data.List.Induction
import TKNC.Lib.AddressBlock
import TKNC.Lib.Numeral

/-!
# PublicAddress — the interface scan of `DetectPublicIPForMiner`

The scan goes through the interface addresses that `getifaddrs` lists and keeps the text of the last
IPv4 address that passes five tests.  The tests are meant to reject the private and shared blocks
and the loopback block.  Two of them reject less: the mask for 172.16/12 has an additional bit, and
only one address of 127/8 is compared with.

The order of the list decides what a leak does, as a later public address overwrites it
(`detectsPublic_iff`).
-/

namespace TKNC.Node

open Lib Lib.Numeral AddressBlock List

structure InAddr where
  (a b c d : BitVec 8)
  deriving DecidableEq

inductive SockAddr where
  | inet (sinAddr : InAddr)
  | other (saFamily : Nat)
  deriving DecidableEq

namespace InAddr

def ntohl (addr : InAddr) : BitVec 32 :=
  addr.a ++ addr.b ++ addr.c ++ addr.d

def text (addr : InAddr) : Bytes :=
  decimal addr.a.toNat ++ 46 :: (decimal addr.b.toNat ++ 46 :: (decimal addr.c.toNat ++
    46 :: decimal addr.d.toNat))

/-- `inet_ntop` fails if the text and its terminator do not fit. -/
def inetNtop (addr : InAddr) (size : Nat) : Option Bytes :=
  if addr.text.length + 1 ≤ size then some addr.text else none

end InAddr

def INET_ADDRSTRLEN : Nat :=
  16

def skipped (ip : BitVec 32) : Bool :=
  ip == 0x7f000001#32 ||
    ip &&& 0xff000000#32 == 0x0a000000#32 ||
    ip &&& 0xfff00020#32 == 0xac100000#32 ||
    ip &&& 0xffff0000#32 == 0xc0a80000#32 ||
    ip &&& 0xffc00000#32 == 0x64400000#32

def scanTurn (bestIpv4 : Bytes) : Option SockAddr → Bytes
  | none => bestIpv4
  | some (.other _) => bestIpv4
  | some (.inet sinAddr) =>
      if skipped sinAddr.ntohl then bestIpv4
      else
        match sinAddr.inetNtop INET_ADDRSTRLEN with
        | some ipStr => ipStr
        | none => bestIpv4

def scanInterfaces (ifap : List (Option SockAddr)) : Option Bytes :=
  let bestIpv4 := ifap.foldl scanTurn []
  if bestIpv4 = [] then none else some bestIpv4

def privateBlocks : List (AddressBlock 32) :=
  [⟨0x0a000000#32, 24⟩, ⟨0xac100000#32, 20⟩, ⟨0xc0a80000#32, 16⟩, ⟨0x64400000#32, 22⟩,
    ⟨0x7f000000#32, 24⟩]

/-- Outside 10/8, 172.16/12, 192.168/16, 100.64/10 and 127/8. -/
def IsPublic (addr : InAddr) : Prop :=
  ∀ block ∈ privateBlocks, ¬block.mem addr.ntohl

instance (addr : InAddr) : Decidable (IsPublic addr) :=
  inferInstanceAs (Decidable (∀ block ∈ privateBlocks, ¬block.mem addr.ntohl))

def addresses (ifap : List (Option SockAddr)) : List InAddr :=
  ifap.filterMap fun
    | some (.inet sinAddr) => some sinAddr
    | _ => none

structure DetectsPublic (ifap : List (Option SockAddr)) : Prop where
  isPublic : ∀ addr : InAddr, scanInterfaces ifap = some addr.text → IsPublic addr
  finds : (∃ addr ∈ addresses ifap, IsPublic addr) →
    ∃ addr ∈ addresses ifap, scanInterfaces ifap = some addr.text

/-! ## The text of an address -/

theorem decimal_append_dot_inj {m n : Nat} {rest rest' : Bytes}
    (h : decimal m ++ 46 :: rest = decimal n ++ 46 :: rest') : m = n ∧ rest = rest' := by
  have htake : ∀ (k : Nat) (tail : Bytes),
      (decimal k ++ 46 :: tail).takeWhile isDigit = decimal k := by
    intro k tail
    rw [takeWhile_append_of_pos fun b hb => mem_decimal hb,
      takeWhile_cons_of_neg (by decide), append_nil]
  have hdecimal : decimal m = decimal n := by rw [← htake m rest, h, htake]
  rw [hdecimal] at h
  exact ⟨by rw [← digitsValue_decimal m, hdecimal, digitsValue_decimal],
    (cons.inj (append_cancel_left h)).2⟩

theorem InAddr.text_injective : Function.Injective InAddr.text := by
  rintro ⟨a, b, c, d⟩ ⟨a', b', c', d'⟩ h
  obtain ⟨ha, h⟩ := decimal_append_dot_inj h
  obtain ⟨hb, h⟩ := decimal_append_dot_inj h
  obtain ⟨hc, h⟩ := decimal_append_dot_inj h
  have hd : d.toNat = d'.toNat := by rw [← digitsValue_decimal d.toNat, h, digitsValue_decimal]
  obtain rfl : a = a' := BitVec.eq_of_toNat_eq ha
  obtain rfl : b = b' := BitVec.eq_of_toNat_eq hb
  obtain rfl : c = c' := BitVec.eq_of_toNat_eq hc
  obtain rfl : d = d' := BitVec.eq_of_toNat_eq hd
  rfl

theorem length_decimal_octet (o : BitVec 8) : (decimal o.toNat).length ≤ 3 := by
  rw [decimal, length_map, Nat.length_toDigits_le_iff (by decide) (by decide)]
  have hlt := o.isLt
  omega

theorem InAddr.inetNtop_eq (addr : InAddr) : addr.inetNtop INET_ADDRSTRLEN = some addr.text := by
  have ha := length_decimal_octet addr.a
  have hb := length_decimal_octet addr.b
  have hc := length_decimal_octet addr.c
  have hd := length_decimal_octet addr.d
  refine if_pos ?_
  simp only [InAddr.text, length_append, length_cons, INET_ADDRSTRLEN]
  omega

theorem InAddr.text_ne_nil (addr : InAddr) : addr.text ≠ [] := by
  simp [InAddr.text]

def passes (addr : InAddr) : Bool :=
  !skipped addr.ntohl

theorem addresses_concat (ifap : List (Option SockAddr)) (ifa : Option SockAddr) :
    addresses (ifap ++ [ifa]) = addresses ifap ++ addresses [ifa] :=
  filterMap_append

theorem foldl_scanTurn (ifap : List (Option SockAddr)) :
    ifap.foldl scanTurn [] = (((addresses ifap).reverse.find? passes).map InAddr.text).getD [] := by
  -- The last interface decides, unless it is passed over.
  induction ifap using reverseRecOn with
  | nil => rfl
  | append_singleton ifap ifa ih =>
    rw [foldl_append, foldl_cons, foldl_nil, ih, addresses_concat]
    match ifa with
    | none => simp [scanTurn, addresses]
    | some (.other saFamily) => simp [scanTurn, addresses]
    | some (.inet sinAddr) =>
      cases hskipped : skipped sinAddr.ntohl with
      | true => simp [scanTurn, addresses, passes, hskipped]
      | false => simp [scanTurn, addresses, passes, hskipped, InAddr.inetNtop_eq]

theorem scanInterfaces_eq (ifap : List (Option SockAddr)) :
    scanInterfaces ifap = ((addresses ifap).reverse.find? passes).map InAddr.text := by
  unfold scanInterfaces
  rw [foldl_scanTurn]
  cases (addresses ifap).reverse.find? passes with
  | none => rfl
  | some addr => exact if_neg addr.text_ne_nil

/-! ## What passes -/

/-- 127/8 but for 127.0.0.1, and the half of 172.16/12 that the wrong mask lets through. -/
def Leaks (addr : InAddr) : Prop :=
  (AddressBlock.mem ⟨0x7f000000#32, 24⟩ addr.ntohl ∧ addr.ntohl ≠ 0x7f000001#32) ∨
    (AddressBlock.mem ⟨0xac100000#32, 20⟩ addr.ntohl ∧ addr.ntohl &&& 0x20#32 ≠ 0#32)

theorem and_eq_network_iff (ip m network : BitVec 32) (hostBits : Nat)
    (hmask : mask 32 hostBits = m) (hnetwork : network &&& m = network) :
    ip &&& m = network ↔ mem ⟨network, hostBits⟩ ip := by
  subst hmask
  exact @AddressBlock.and_mask_eq_iff 32 ⟨network, hostBits⟩ ip hnetwork

theorem and_fff00020_eq_iff (ip : BitVec 32) :
    ip &&& 0xfff00020#32 = 0xac100000#32 ↔
      mem ⟨0xac100000#32, 20⟩ ip ∧ ip &&& 0x20#32 = 0#32 := by
  have hmask : 0xfff00020#32 = 0xfff00000#32 ||| 0x20#32 := by decide
  rw [hmask, and_or_eq_iff (by decide) (by decide),
    and_eq_network_iff ip 0xfff00000#32 0xac100000#32 20 (by decide) (by decide)]

theorem skipped_iff (ip : BitVec 32) :
    skipped ip = true ↔
      ip = 0x7f000001#32 ∨ mem ⟨0x0a000000#32, 24⟩ ip ∨
        (mem ⟨0xac100000#32, 20⟩ ip ∧ ip &&& 0x20#32 = 0#32) ∨
        mem ⟨0xc0a80000#32, 16⟩ ip ∨ mem ⟨0x64400000#32, 22⟩ ip := by
  have h10 := and_eq_network_iff ip 0xff000000#32 0x0a000000#32 24 (by decide) (by decide)
  have h192 := and_eq_network_iff ip 0xffff0000#32 0xc0a80000#32 16 (by decide) (by decide)
  have h100 := and_eq_network_iff ip 0xffc00000#32 0x64400000#32 22 (by decide) (by decide)
  simp only [skipped, Bool.or_eq_true, beq_iff_eq, or_assoc, h10, and_fff00020_eq_iff, h192, h100]

theorem passes_iff (addr : InAddr) : passes addr = true ↔ IsPublic addr ∨ Leaks addr := by
  have hloopback : addr.ntohl = 0x7f000001#32 ↔ addr.ntohl.toNat = 2130706433 :=
    BitVec.toNat_eq
  rw [passes, Bool.not_eq_true', ← Bool.not_eq_true, skipped_iff]
  simp only [IsPublic, Leaks, privateBlocks, forall_mem_cons, not_mem_nil,
    false_imp_iff, implies_true, and_true, mem, hloopback, ne_eq, BitVec.toNat_ofNat]
  -- The blocks are disjoint intervals; the bit of the wrong mask plays no part in that.
  by_cases hbit : addr.ntohl &&& 0x20#32 = 0#32
  · simp only [hbit, and_true, not_true_eq_false, and_false, or_false]
    omega
  · simp only [hbit, and_false, not_false_eq_true, and_true, false_or]
    omega

variable {addr : InAddr}

theorem not_isPublic_of_leaks (h : Leaks addr) : ¬IsPublic addr := by
  intro hpublic
  rcases h with ⟨hmem, -⟩ | ⟨hmem, -⟩
  · exact hpublic _ (by simp [privateBlocks]) hmem
  · exact hpublic _ (by simp [privateBlocks]) hmem

/-! ## When the result is public -/

/-- Every address that leaks is followed by one outside the blocks. -/
def LeaksAreOverwritten (ifap : List (Option SockAddr)) : Prop :=
  ∀ before addr after, addresses ifap = before ++ addr :: after → Leaks addr →
    ∃ later ∈ after, IsPublic later

theorem exists_of_passes {ifap : List (Option SockAddr)} (hmem : addr ∈ addresses ifap)
    (hpasses : passes addr = true) :
    ∃ found ∈ addresses ifap, (addresses ifap).reverse.find? passes = some found := by
  cases hfind : (addresses ifap).reverse.find? passes with
  | none => exact absurd hpasses (find?_eq_none.1 hfind addr (mem_reverse.2 hmem))
  | some found => exact ⟨found, mem_reverse.1 (mem_of_find?_eq_some hfind), rfl⟩

theorem finds_of_isPublic {ifap : List (Option SockAddr)}
    (h : ∃ addr ∈ addresses ifap, IsPublic addr) :
    ∃ addr ∈ addresses ifap, scanInterfaces ifap = some addr.text := by
  obtain ⟨addr, hmem, hpublic⟩ := h
  obtain ⟨found, hfound, hfind⟩ := exists_of_passes hmem ((passes_iff addr).2 (Or.inl hpublic))
  exact ⟨found, hfound, by rw [scanInterfaces_eq, hfind, Option.map_some]⟩

/-- The last address that passes has none behind it that passes. -/
theorem split_of_find {l : List InAddr} (h : l.reverse.find? passes = some addr) :
    passes addr = true ∧ ∃ before after, l = before ++ addr :: after ∧
      ∀ later ∈ after, passes later = false := by
  obtain ⟨hpasses, front, back, hlist, hfront⟩ := find?_eq_some_iff_append.1 h
  refine ⟨hpasses, back.reverse, front.reverse, ?_, ?_⟩
  · rw [← reverse_reverse l, hlist, reverse_append, reverse_cons,
      append_assoc, singleton_append]
  · intro later hmem
    simpa using hfront later (mem_reverse.1 hmem)

theorem leaksAreOverwritten_iff (ifap : List (Option SockAddr)) :
    LeaksAreOverwritten ifap ↔
      ∀ addr, (addresses ifap).reverse.find? passes = some addr → IsPublic addr := by
  constructor
  · intro h addr hfind
    obtain ⟨hpasses, before, after, hlist, hafter⟩ := split_of_find hfind
    refine ((passes_iff addr).1 hpasses).resolve_right fun hleaks => ?_
    obtain ⟨later, hlater, hpublic⟩ := h before addr after hlist hleaks
    exact Bool.eq_false_iff.1 (hafter later hlater) ((passes_iff later).2 (Or.inl hpublic))
  · intro h before addr after hlist hleaks
    -- The search from the back ends at this address at the latest.
    have hfind : (addresses ifap).reverse.find? passes =
        ((addr :: after).reverse.find? passes).or (before.reverse.find? passes) := by
      rw [hlist, reverse_append, find?_append]
    cases hlast : (addr :: after).reverse.find? passes with
    | none =>
      have hpasses := (passes_iff addr).2 (Or.inr hleaks)
      exact absurd hpasses
        (find?_eq_none.1 hlast addr (mem_reverse.2 mem_cons_self))
    | some last =>
      rw [hlast, Option.some_or] at hfind
      have hpublic := h last hfind
      refine ⟨last, ?_, hpublic⟩
      rcases mem_cons.1 (mem_reverse.1 (mem_of_find?_eq_some hlast)) with rfl | hmem
      · exact absurd hpublic (not_isPublic_of_leaks hleaks)
      · exact hmem

theorem detectsPublic_iff (ifap : List (Option SockAddr)) :
    DetectsPublic ifap ↔ LeaksAreOverwritten ifap := by
  rw [leaksAreOverwritten_iff]
  constructor
  · intro h addr hfind
    exact h.isPublic addr (by rw [scanInterfaces_eq, hfind, Option.map_some])
  · intro h
    refine ⟨fun addr hscan => ?_, finds_of_isPublic⟩
    rw [scanInterfaces_eq, Option.map_eq_some_iff] at hscan
    obtain ⟨found, hfind, htext⟩ := hscan
    -- The text determines the address.
    rw [← InAddr.text_injective htext]
    exact h found hfind

def leaking : InAddr :=
  ⟨172#8, 16#8, 0#8, 32#8⟩

theorem not_detectsPublic_leaking : ¬DetectsPublic [some (.inet leaking)] := by
  intro h
  have hscan : scanInterfaces [some (.inet leaking)] = some leaking.text := by decide
  exact absurd (h.isPublic leaking hscan) (by decide)

end TKNC.Node

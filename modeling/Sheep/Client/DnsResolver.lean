import Sheep.Lib.Bytes
import Sheep.Lib.OrderedMap

/-!
# `DnsResolver`

`resolver/dns_resolver.h`: `resolveOnce` looks up each host and passes a node for each address to
its handler. `gethostbyname` is a parameter.

`DnsLaw`: the nodes are those of all addresses of all hosts. `dnsLaw_iff`: that is so exactly when
every address is the first one of some host, since the loop over the addresses converts `h_addr`,
which is the first, in each round.
-/

namespace Sheep

/-- `struct in_addr`, in network order. -/
structure InAddr where
  b0 : UInt8
  b1 : UInt8
  b2 : UInt8
  b3 : UInt8
  deriving DecidableEq, Repr

/-- `inet_ntop` for `AF_INET`. -/
def inetNtop (addr : InAddr) : Bytes :=
  bytes (toString addr.b0.toNat) ++ '.'.toUInt8 :: (bytes (toString addr.b1.toNat) ++
    '.'.toUInt8 :: (bytes (toString addr.b2.toNat) ++
      '.'.toUInt8 :: bytes (toString addr.b3.toNat)))

/-- `struct hostent`. -/
structure Hostent where
  hAddrtype : Int
  hAddrList : List InAddr

def afInet : Int := 2

/-- `h_addr` is `h_addr_list[0]`. -/
def Hostent.hAddr (hptr : Hostent) : InAddr := hptr.hAddrList.headD ⟨0, 0, 0, 0⟩

/-- `gethostbyname`, with the text of `hstrerror` where it fails. -/
abbrev Gethostbyname := Bytes → Except Bytes Hostent

namespace DnsResolver

/-- The loop over the addresses from `pptr` on. -/
def insertAddrs (hptr : Hostent) : List InAddr → OrderedSet Bytes → OrderedSet Bytes
  | [], addrs => addrs
  | _ :: pptr, addrs => insertAddrs hptr pptr (addrs.insert (inetNtop hptr.hAddr) ())

/-- `DefaultDns::Resolver`: `errMsg` and `addrs`. -/
def resolver (gethostbyname : Gethostbyname) (errMsg host : Bytes) (addrs : OrderedSet Bytes) :
    Bytes × OrderedSet Bytes :=
  match gethostbyname host with
  | .error hstrerror => (bytes "gethostbyname error for host: " ++ host ++ hstrerror, addrs)
  | .ok hptr =>
    let addrs := if hptr.hAddrtype = afInet then insertAddrs hptr hptr.hAddrList addrs else addrs
    (if addrs.entries = [] then host ++ bytes " no available dns addrs" else errMsg, addrs)

/-- The loop over the hosts: `errMsg`, which is only logged, and `nodes`. -/
def resolveAll (gethostbyname : Gethostbyname) (ips : List Bytes) : Bytes × OrderedSet Bytes :=
  ips.foldl (fun r ip => resolver gethostbyname r.1 ip r.2) ([], .empty)

def addrPort (port : UInt32) (node : Bytes) : Bytes :=
  node ++ ':'.toUInt8 :: bytes (toString port.toNat)

/-- `resolveOnce`: what the handler is called with, if it is called. -/
def resolveOnce (gethostbyname : Gethostbyname) (ips : List Bytes) (port : UInt32) :
    Option (OrderedSet Bytes) :=
  let nodes := (resolveAll gethostbyname ips).2
  let addrPortNodes := nodes.keys.foldl (fun s node => s.insert (addrPort port node) ()) .empty
  if nodes.entries ≠ [] then some addrPortNodes else none

/-! ## The contract -/

/-- The nodes that the handler gets are those of all addresses of all hosts. -/
def DnsLaw (gethostbyname : Gethostbyname) (ips : List Bytes) (port : UInt32)
    (addrs : Bytes → List InAddr) : Prop :=
  ∀ s, s ∈ ((resolveOnce gethostbyname ips port).elim [] OrderedMap.keys) ↔
    ∃ ip ∈ ips, ∃ addr ∈ addrs ip, s = addrPort port (inetNtop addr)

/-- `gethostbyname` returns these addresses. -/
def Resolves (gethostbyname : Gethostbyname) (ips : List Bytes) (addrs : Bytes → List InAddr) :
    Prop :=
  ∀ ip ∈ ips, addrs ip ≠ [] ∧ gethostbyname ip = .ok ⟨afInet, addrs ip⟩

/-! ## Texts -/

theorem dot_not_mem_toString (n : Nat) : '.'.toUInt8 ∉ bytes (toString n) := fun hmem =>
  absurd (isDigit_of_mem_toString hmem) (by decide)

/-- Two addresses have two texts. -/
theorem inetNtop_injective : Function.Injective inetNtop := by
  have hsplit : ∀ (n : Nat) (rest : Bytes),
      splitFirst '.'.toUInt8 (bytes (toString n) ++ '.'.toUInt8 :: rest) =
        some (bytes (toString n), rest) := fun n rest =>
    splitFirst_append (dot_not_mem_toString n) rest
  have hcut : ∀ {m n : Nat} {r r' : Bytes},
      bytes (toString m) ++ '.'.toUInt8 :: r = bytes (toString n) ++ '.'.toUInt8 :: r' →
        m = n ∧ r = r' := by
    intro m n r r' heq
    have h := congrArg (splitFirst '.'.toUInt8) heq
    rw [hsplit, hsplit, Option.some.injEq, Prod.mk.injEq] at h
    exact ⟨toString_bytes_injective h.1, h.2⟩
  rintro ⟨a0, a1, a2, a3⟩ ⟨b0, b1, b2, b3⟩ heq
  obtain ⟨h0, heq⟩ := hcut heq
  obtain ⟨h1, heq⟩ := hcut heq
  obtain ⟨h2, heq⟩ := hcut heq
  have h3 := toString_bytes_injective heq
  rw [InAddr.mk.injEq]
  exact ⟨UInt8.toNat_inj.mp h0, UInt8.toNat_inj.mp h1, UInt8.toNat_inj.mp h2, UInt8.toNat_inj.mp h3⟩

theorem addrPort_injective (port : UInt32) : Function.Injective (addrPort port) := fun _ _ heq =>
  List.append_cancel_right heq

/-! ## What is inserted -/

theorem mem_insertAddrs {hptr : Hostent} {pptr : List InAddr} {addrs : OrderedSet Bytes}
    {s : Bytes} : s ∈ (insertAddrs hptr pptr addrs).keys ↔
      s ∈ addrs.keys ∨ pptr ≠ [] ∧ s = inetNtop hptr.hAddr := by
  induction pptr generalizing addrs with
  | nil => simp [insertAddrs]
  | cons _ pptr ih =>
    rw [insertAddrs, ih, OrderedMap.mem_keys_insert]
    constructor
    · rintro ((h | h) | h)
      · exact .inr ⟨List.cons_ne_nil _ _, h⟩
      · exact .inl h
      · exact .inr ⟨List.cons_ne_nil _ _, h.2⟩
    · rintro (h | h)
      · exact .inl (.inr h)
      · exact .inl (.inl h.2)

/-- Of each host the first address is inserted. -/
theorem mem_resolveAll {gethostbyname : Gethostbyname} {ips : List Bytes}
    {addrs : Bytes → List InAddr} (h : Resolves gethostbyname ips addrs) (s : Bytes) :
    s ∈ (resolveAll gethostbyname ips).2.keys ↔
      ∃ ip ∈ ips, ∃ addr ∈ (addrs ip).head?, s = inetNtop addr := by
  have hloop : ∀ (ips : List Bytes), Resolves gethostbyname ips addrs →
      ∀ (r : Bytes × OrderedSet Bytes),
        (s ∈ (ips.foldl (fun r ip => resolver gethostbyname r.1 ip r.2) r).2.keys ↔
          s ∈ r.2.keys ∨ ∃ ip ∈ ips, ∃ addr ∈ (addrs ip).head?, s = inetNtop addr) := by
    intro ips
    induction ips with
    | nil => intro _ r; simp
    | cons ip ips ih =>
      intro h r
      obtain ⟨hne, hhost⟩ := h ip List.mem_cons_self
      obtain ⟨addr, rest, hcons⟩ := List.exists_cons_of_ne_nil hne
      have hnodes : (resolver gethostbyname r.1 ip r.2).2 =
          insertAddrs ⟨afInet, addrs ip⟩ (addrs ip) r.2 := by
        unfold resolver
        rw [hhost]
        rfl
      rw [List.foldl_cons, ih (fun ip hip => h ip (List.mem_cons_of_mem _ hip)), hnodes,
        mem_insertAddrs]
      have hfirst : (⟨afInet, addr :: rest⟩ : Hostent).hAddr = addr := rfl
      have hcons_ne : addr :: rest ≠ [] := List.cons_ne_nil addr rest
      simp only [hcons, hfirst, hcons_ne, ne_eq, not_false_eq_true, true_and, List.mem_cons,
        exists_eq_or_imp, List.head?_cons, Option.mem_some_iff, exists_eq_left', or_assoc]
  rw [resolveAll, hloop ips h]
  exact or_iff_right OrderedMap.not_mem_keys_empty

theorem mem_resolveOnce {gethostbyname : Gethostbyname} {ips : List Bytes} {port : UInt32}
    (s : Bytes) : s ∈ ((resolveOnce gethostbyname ips port).elim [] OrderedMap.keys) ↔
      ∃ node ∈ (resolveAll gethostbyname ips).2.keys, s = addrPort port node := by
  have hinsert : ∀ (nodes : List Bytes) (set : OrderedSet Bytes),
      (s ∈ (nodes.foldl (fun set node => set.insert (addrPort port node) ()) set).keys ↔
        s ∈ set.keys ∨ ∃ node ∈ nodes, s = addrPort port node) := by
    intro nodes
    induction nodes with
    | nil => intro set; simp
    | cons node nodes ih =>
      intro set
      rw [List.foldl_cons, ih, OrderedMap.mem_keys_insert]
      simp only [List.mem_cons, exists_eq_or_imp, or_assoc, or_left_comm]
  unfold resolveOnce
  dsimp only
  split
  next => exact (hinsert _ _).trans (or_iff_right OrderedMap.not_mem_keys_empty)
  next hempty =>
    have hkeys : (resolveAll gethostbyname ips).2.keys = [] :=
      congrArg (List.map Prod.fst) (not_not.mp hempty)
    rw [hkeys]
    simp

/-- The handler gets all addresses exactly when each is the first one of some host. -/
theorem dnsLaw_iff (gethostbyname : Gethostbyname) (ips : List Bytes) (port : UInt32)
    (addrs : Bytes → List InAddr) (h : Resolves gethostbyname ips addrs) :
    DnsLaw gethostbyname ips port addrs ↔
      ∀ ip ∈ ips, ∀ addr ∈ addrs ip, ∃ ip' ∈ ips, (addrs ip').head? = some addr := by
  have hpassed : ∀ s, s ∈ ((resolveOnce gethostbyname ips port).elim [] OrderedMap.keys) ↔
      ∃ ip ∈ ips, ∃ addr ∈ (addrs ip).head?, s = addrPort port (inetNtop addr) := by
    intro s
    rw [mem_resolveOnce]
    constructor
    · rintro ⟨node, hnode, rfl⟩
      obtain ⟨ip, hip, addr, haddr, rfl⟩ := (mem_resolveAll h node).mp hnode
      exact ⟨ip, hip, addr, haddr, rfl⟩
    · rintro ⟨ip, hip, addr, haddr, rfl⟩
      exact ⟨_, (mem_resolveAll h _).mpr ⟨ip, hip, addr, haddr, rfl⟩, rfl⟩
  constructor
  · intro hlaw ip hip addr haddr
    obtain ⟨ip', hip', first, hfirst, heq⟩ :=
      (hpassed _).mp ((hlaw _).mpr ⟨ip, hip, addr, haddr, rfl⟩)
    have := inetNtop_injective (addrPort_injective port heq)
    exact ⟨ip', hip', this ▸ hfirst⟩
  · intro hall s
    rw [hpassed]
    constructor
    · rintro ⟨ip, hip, addr, haddr, rfl⟩
      exact ⟨ip, hip, addr, List.mem_of_mem_head? haddr, rfl⟩
    · rintro ⟨ip, hip, addr, haddr, rfl⟩
      obtain ⟨ip', hip', hfirst⟩ := hall ip hip addr haddr
      exact ⟨ip', hip', addr, hfirst, rfl⟩

/-- Each host has the addresses that are given for it. -/
def hostsFile (addrs : Bytes → List InAddr) : Gethostbyname := fun host =>
  .ok ⟨afInet, addrs host⟩

/-- Two hosts with one address each. -/
theorem dnsLaw_one_address :
    DnsLaw (hostsFile fun host => [⟨10, 0, 0, host.headD 0⟩]) [bytes "a", bytes "b"] 2379
      fun host => [⟨10, 0, 0, host.headD 0⟩] :=
  (dnsLaw_iff _ _ _ _ fun _ _ => ⟨List.cons_ne_nil _ _, rfl⟩).mpr fun ip hip _ haddr =>
    ⟨ip, hip, congrArg some (List.mem_singleton.mp haddr).symm⟩

/-- Of a host with two addresses the second is left out. -/
theorem second_address_lost :
    ((resolveOnce (hostsFile fun _ => [⟨10, 0, 0, 1⟩, ⟨10, 0, 0, 2⟩]) [bytes "a"] 2379).map
        OrderedMap.keys) = some [bytes "10.0.0.1:2379"] ∧
      ¬ DnsLaw (hostsFile fun _ => [⟨10, 0, 0, 1⟩, ⟨10, 0, 0, 2⟩]) [bytes "a"] 2379
        fun _ => [⟨10, 0, 0, 1⟩, ⟨10, 0, 0, 2⟩] := by
  refine ⟨by decide +kernel, fun hlaw => ?_⟩
  have hmem := (hlaw (bytes "10.0.0.2:2379")).mpr
    ⟨bytes "a", List.mem_singleton_self _, ⟨10, 0, 0, 2⟩, by decide, by decide +kernel⟩
  exact absurd hmem (by decide +kernel)

end DnsResolver

end Sheep

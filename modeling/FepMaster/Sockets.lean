import FepMaster.Packet

/-!
# Datagram sockets

What the server task uses of lwIP's `api/sockets.c`: `struct sockaddr_in`, a non-blocking
`lwip_recvfrom` on a UDP socket, and the address `lwip_sendto` sends to.

`lwipRecvfrom` copies the first bytes of the datagram, as many as were asked for, and drops the
others; the rest of the receive buffer keeps what it held.  The sender's address is stored for
every datagram it takes, whatever the length.
-/

namespace FepMaster

/-! ## Addresses -/

/-- A host and a port, as the network interface has them: the address word in network order, the
port in host order. -/
structure Endpoint where
  ip : UInt32
  port : UInt16
  deriving DecidableEq

/-- `struct sockaddr_in`, less `sin_zero`: every writer clears it and nobody reads it. -/
structure SockaddrIn where
  sinLen : UInt8
  sinFamily : UInt8
  sinPort : UInt16
  sinAddr : UInt32
  deriving DecidableEq

/-- `AF_INET`. -/
def afInet : UInt8 := 2

/-- `lwip_htons` on the little-endian core. -/
def htons (n : UInt16) : UInt16 := (n &&& 0xff) <<< 8 ||| (n &&& 0xff00) >>> 8

/-- `lwip_ntohs`. -/
def ntohs (n : UInt16) : UInt16 := htons n

/-- The word `inet_aton` makes of a dotted address: the first number in the first byte. -/
def inetAton (a b c d : UInt8) : UInt32 :=
  a.toUInt32 ||| b.toUInt32 <<< 8 ||| c.toUInt32 <<< 16 ||| d.toUInt32 <<< 24

/-- `IP4ADDR_PORT_TO_SOCKADDR`; the length is `sizeof(struct sockaddr_in)`. -/
def ip4addrPortToSockaddr (e : Endpoint) : SockaddrIn := ⟨16, afInet, htons e.port, e.ip⟩

/-- `SOCKADDR4_TO_IP4ADDR_PORT`: where `lwip_sendto` sends to. -/
def SockaddrIn.endpoint (addr : SockaddrIn) : Endpoint := ⟨addr.sinAddr, ntohs addr.sinPort⟩

theorem htons_toNat (n : UInt16) : (htons n).toNat = n.toNat % 256 * 256 + n.toNat / 256 := by
  have bound := n.toNat_lt
  have low : n.toNat &&& 0xff = n.toNat % 256 := Nat.and_two_pow_sub_one_eq_mod n.toNat 8
  have high : (n.toNat &&& 0xff00) >>> 8 = n.toNat / 256 := by
    have top := Nat.and_two_pow_sub_one_eq_mod (n.toNat / 2 ^ 8) 8
    rw [Nat.mod_eq_of_lt (by omega)] at top
    rw [Nat.shiftRight_and_distrib, Nat.shiftRight_eq_div_pow]
    exact top
  have eight : (8 : UInt16).toNat % 16 = 8 := rfl
  have lowMask : (0xff : UInt16).toNat = 0xff := rfl
  have highMask : (0xff00 : UInt16).toNat = 0xff00 := rfl
  rw [htons, UInt16.toNat_or, UInt16.toNat_shiftLeft, UInt16.toNat_shiftRight, UInt16.toNat_and,
    UInt16.toNat_and, eight, lowMask, highMask, low, high, Nat.shiftLeft_eq,
    Nat.mod_eq_of_lt (by omega), ← Nat.shiftLeft_eq, ← Nat.shiftLeft_add_eq_or_of_lt (by omega),
    Nat.shiftLeft_eq]

/-- Swapping the two bytes of a port twice gives the port back. -/
theorem ntohs_htons (n : UInt16) : ntohs (htons n) = n := by
  apply UInt16.toNat_inj.mp
  have bound := n.toNat_lt
  rw [ntohs, htons_toNat, htons_toNat]
  omega

/-- A reply to the address `lwip_recvfrom` has stored goes to the sender. -/
theorem endpoint_ip4addrPortToSockaddr (e : Endpoint) :
    (ip4addrPortToSockaddr e).endpoint = e := by
  rw [SockaddrIn.endpoint, ip4addrPortToSockaddr, ntohs_htons]

/-! ## Receiving and sending -/

/-- A UDP datagram as the stack delivers it. -/
structure Datagram where
  source : Endpoint
  payload : List UInt8

/-- A call of `sendto`: the bytes and the address. -/
structure Sendto where
  payload : List UInt8
  addr : SockaddrIn

/-- `pbuf_copy_partial`: the bytes replace the beginning of the memory. -/
def pbufCopyPartial {n : Nat} (bytes : List UInt8) (mem : Vector UInt8 n) : Vector UInt8 n :=
  Vector.ofFn fun i => bytes.getD i.val mem[i]

/-- `lwip_recvfrom` with `MSG_DONTWAIT` and room for a whole address: the result, the memory and
the address.  `incoming` is the datagram it takes from the socket, if there is one. -/
def lwipRecvfrom {n : Nat} (incoming : Option Datagram) (mem : Vector UInt8 n) (len : Nat)
    (addr : SockaddrIn) : Int × Vector UInt8 n × SockaddrIn :=
  match incoming with
  | none => (-1, mem, addr)
  | some d =>
      let buflen := d.payload.length
      let copylen := if len > buflen then buflen else len
      (copylen, pbufCopyPartial (d.payload.take copylen) mem, ip4addrPortToSockaddr d.source)

end FepMaster

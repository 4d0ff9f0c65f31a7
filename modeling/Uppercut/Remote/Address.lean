import Uppercut.Core.Action

/-!
# Addresses of other hosts

An address with an `@` names a tag at a host. Hosts are socket addresses of the standard
library: several texts may parse to one address, but an address has one text.
-/

namespace Uppercut

/-- `std::net::SocketAddr`. -/
class SocketAddr (α : Type) where
  parse : String → Option α
  text : α → String
  setPort : α → UInt16 → α

open SocketAddr in
class LawfulSocketAddr (α : Type) [SocketAddr α] : Prop where
  parse_text : ∀ a : α, parse (text a) = some a
  text_plain : ∀ a : α, '@' ∉ (text a).toList

/-- Indexing into the parts is checked: `none` stands for an index out of bounds. -/
def splitAddress (address : String) : Option (String × String) :=
  if '@' ∈ address.toList then
    match (address.toList.splitOn '@').map String.ofList with
    | «to» :: host :: _ => some («to», host)
    | _ => none
  else some (address, "")

/-- The index is never out of bounds. -/
theorem splitAddress_isSome (address : String) : (splitAddress address).isSome = true := by
  rw [splitAddress]
  split
  case isFalse => rfl
  case isTrue remote =>
    obtain ⟨front, back, split⟩ := List.append_of_mem remote
    rw [split, List.splitOn_append_cons_self]
    obtain ⟨first, firsts, known⟩ :=
      List.exists_cons_of_ne_nil (List.splitOn_ne_nil '@' front)
    obtain ⟨last, lasts, known'⟩ := List.exists_cons_of_ne_nil (List.splitOn_ne_nil '@' back)
    rw [known, known']
    cases firsts <;> rfl

/-- A plain tag at a plain host. -/
theorem splitAddress_at {tag host : String} (tagPlain : '@' ∉ tag.toList)
    (hostPlain : '@' ∉ host.toList) : splitAddress (tag ++ "@" ++ host) = some (tag, host) := by
  have chars : (tag ++ "@" ++ host).toList = tag.toList ++ '@' :: host.toList := by simp
  simp [splitAddress, chars, List.splitOn_append_cons_self_of_not_mem tagPlain,
    List.splitOn_eq_singleton hostPlain]

theorem adjustRemoteAddress_plain {tag : String} (plain : '@' ∉ tag.toList)
    (envelope : Envelope) : adjustRemoteAddress tag envelope = (tag, envelope) := by
  simp [adjustRemoteAddress, plain]

/-- The loopback addresses of IPv4. -/
structure Loopback where
  port : UInt16
  deriving DecidableEq

namespace Loopback

def ip : List Char := "127.0.0.1:".toList

/-- Leading zeros of a port are accepted. -/
def parse (s : String) : Option Loopback :=
  let digits := s.toList.drop ip.length
  if ip.isPrefixOf s.toList ∧ digits ≠ [] ∧ digits.all Char.isDigit ∧
      Nat.ofDigitChars 10 digits 0 < UInt16.size then
    some ⟨UInt16.ofNat (Nat.ofDigitChars 10 digits 0)⟩
  else none

instance : SocketAddr Loopback where
  parse := parse
  text a := String.ofList (ip ++ Nat.toDigits 10 a.port.toNat)
  setPort _ port := ⟨port⟩

instance : LawfulSocketAddr Loopback where
  parse_text a := by
    have digits : ∀ c ∈ Nat.toDigits 10 a.port.toNat, c.isDigit = true := fun c mem =>
      Nat.isDigit_of_mem_toDigits (by decide) (by decide) mem
    simpa [SocketAddr.parse, SocketAddr.text, parse, Nat.toDigits_ne_nil, a.port.toNat_lt]
      using digits
  text_plain a mem := by
    simp only [SocketAddr.text, String.toList_ofList, List.mem_append] at mem
    obtain mem | mem := mem
    · exact absurd mem (by decide)
    · exact absurd (Nat.isDigit_of_mem_toDigits (by decide) (by decide) mem) (by decide)

end Loopback
end Uppercut
